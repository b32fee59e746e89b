import YcAgent.Go.Url

/-!
The environment that Go's `os/exec` gives to a process. A command without an
environment of its own gets that of this process, with the working directory if
one is set. Of several values of one variable the last is kept. The names of
variables are compared as bytes, as everywhere but on Windows, and no entry holds
a NUL byte.
-/

namespace YcAgent.Go

/-- The fields of an `exec.Cmd` that are set before it is started. -/
structure ExecCmd where
  args : List Bytes
  dir : Bytes := []
  env : Option (List Bytes) := none
  deriving DecidableEq

/-- What a command takes from the process that starts it. -/
structure ExecHost where
  environ : List Bytes
  abs : Bytes → Option Bytes

/-- The name of the variable an entry sets. A leading `=` belongs to the name. -/
def envKey (kv : Bytes) : Option Bytes :=
  if equals ∈ kv then
    match kv with
    | [] => none
    | b :: rest =>
      if b = equals then
        if equals ∈ rest then some (equals :: (cut equals rest).1) else some []
      else some (cut equals kv).1
  else none

/-- The entries of `dedupEnv` from the last to the first, without those of the
variables in `saw`. -/
def dedupFrom (saw : List Bytes) : List Bytes → List Bytes
  | [] => []
  | kv :: rest =>
    match envKey kv with
    | none => if kv = [] then dedupFrom saw rest else kv :: dedupFrom saw rest
    | some k => if k ∈ saw then dedupFrom saw rest else kv :: dedupFrom (k :: saw) rest

def dedupEnv (env : List Bytes) : List Bytes :=
  (dedupFrom [] env.reverse).reverse

def ExecCmd.environ (host : ExecHost) (c : ExecCmd) : List Bytes :=
  match c.env with
  | some env => dedupEnv env
  | none =>
    if c.dir = [] then dedupEnv host.environ
    else
      match host.abs c.dir with
      | some pwd => dedupEnv (host.environ ++ [ascii "PWD=" ++ pwd])
      | none => dedupEnv host.environ

/-- The entries that set a variable. -/
def settings (key : Bytes) (env : List Bytes) : List Bytes :=
  env.filter fun kv => envKey kv = some key

theorem envKey_append {key : Bytes} (hkey : key ≠ []) (hequals : equals ∉ key) (value : Bytes) :
    envKey (key ++ equals :: value) = some key := by
  cases key with
  | nil => exact absurd rfl hkey
  | cons b key =>
    have hb : b ≠ equals := fun heq => hequals (heq ▸ List.mem_cons_self)
    have hcut := cut_at hequals value
    rw [List.cons_append] at hcut ⊢
    simp only [envKey, List.mem_cons, List.mem_append, true_or, or_true, if_true, if_neg hb, hcut]

@[simp] theorem settings_nil (key : Bytes) : settings key [] = [] := rfl

theorem settings_cons_of_eq {key kv : Bytes} (hkv : envKey kv = some key) (env : List Bytes) :
    settings key (kv :: env) = kv :: settings key env :=
  List.filter_cons_of_pos (decide_eq_true hkv)

theorem settings_cons_of_ne {key kv : Bytes} (hkv : envKey kv ≠ some key) (env : List Bytes) :
    settings key (kv :: env) = settings key env :=
  List.filter_cons_of_neg (by simpa using hkv)

@[simp] theorem settings_append (key : Bytes) (env env' : List Bytes) :
    settings key (env ++ env') = settings key env ++ settings key env' :=
  List.filter_append ..

theorem settings_dedupFrom (key : Bytes) (saw env : List Bytes) :
    settings key (dedupFrom saw env) =
      if key ∈ saw then [] else (settings key env).head?.toList := by
  induction env generalizing saw with
  | nil => simp [dedupFrom]
  | cons kv env ih =>
    unfold dedupFrom
    cases hkv : envKey kv with
    | none =>
      have hother : envKey kv ≠ some key := by rw [hkv]; exact nofun
      dsimp only
      rw [settings_cons_of_ne hother env]
      by_cases hnil : kv = []
      · rw [if_pos hnil]
        exact ih saw
      · rw [if_neg hnil, settings_cons_of_ne hother]
        exact ih saw
    | some k =>
      dsimp only
      rcases eq_or_ne k key with rfl | hne
      · rw [settings_cons_of_eq hkv env]
        by_cases hsaw : k ∈ saw
        · rw [if_pos hsaw, if_pos hsaw, ih saw, if_pos hsaw]
        · rw [if_neg hsaw, if_neg hsaw, settings_cons_of_eq hkv, ih,
            if_pos List.mem_cons_self]
          rfl
      · have hother : envKey kv ≠ some key := by
          rw [hkv]
          exact fun heq => hne (Option.some_injective _ heq)
        have hsame : key ∈ k :: saw ↔ key ∈ saw := by simp [hne.symm]
        rw [settings_cons_of_ne hother env]
        by_cases hsaw : k ∈ saw
        · rw [if_pos hsaw]
          exact ih saw
        · rw [if_neg hsaw, settings_cons_of_ne hother, ih]
          simp only [hsame]

/-- A process gets the last value of each variable, and only that one. -/
theorem settings_dedupEnv (key : Bytes) (env : List Bytes) :
    settings key (dedupEnv env) = (settings key env).getLast?.toList := by
  have hreverse : ∀ l : List Bytes, settings key l.reverse = (settings key l).reverse :=
    fun l => List.filter_reverse ..
  rw [dedupEnv, hreverse, settings_dedupFrom, if_neg List.not_mem_nil, hreverse, List.head?_reverse]
  cases (settings key env).getLast? with
  | none => rfl
  | some kv => rfl

theorem settings_environ_inherited {key : Bytes} (hkey : key ≠ ascii "PWD") (host : ExecHost)
    {c : ExecCmd} (hc : c.env = none) :
    settings key (c.environ host) = (settings key host.environ).getLast?.toList := by
  have hpwd : ∀ pwd, settings key [ascii "PWD=" ++ pwd] = [] := by
    intro pwd
    have hname : envKey (ascii "PWD" ++ equals :: pwd) = some (ascii "PWD") :=
      envKey_append (by decide) (by decide) pwd
    refine settings_cons_of_ne (fun heq => hkey ?_) []
    exact (Option.some_injective _ (hname.symm.trans heq)).symm
  rw [ExecCmd.environ, hc]
  dsimp only
  split
  · exact settings_dedupEnv key host.environ
  split
  · rw [settings_dedupEnv, settings_append, hpwd, List.append_nil]
  · exact settings_dedupEnv key host.environ

end YcAgent.Go
