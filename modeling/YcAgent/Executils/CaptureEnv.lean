import Mathlib.Logic.Function.Basic
import YcAgent.Go.Exec
import YcAgent.Lib.Moves

/-!
The package variable `Env`. `RunCaptureCmd` sets it for the command it is about to
construct, and every `NewCommand` adds it to the environment of its command. It
is never reset. `NewCommand` looks at `Env` twice, for its length and for its
entries, and other calls may set it in between; the environment of this process
stays the same.
-/

namespace YcAgent.Executils

open Go Lib.Moves

variable {ι : Type}

abbrev Command := List Bytes

def waitCommand : Bytes := ascii "<WaitCommand>"

def shell : Command := [ascii "/bin/sh", ascii "-c"]

/-- An `EnvHooker` is given by the order in which its map is run through, a
`SudoHooker` by the user it changes to, if it does. -/
inductive Hooker where
  | dir (path : Bytes)
  | env (vars : List (Bytes × Bytes))
  | asUser (uid : Option Bytes)

namespace Hooker

def before (cmd : Command) : Hooker → Command
  | .dir _ => cmd
  | .env _ => cmd
  | .asUser none => cmd
  | .asUser (some uid) => [ascii "sudo", ascii "-E", ascii "-u", ascii "#" ++ uid] ++ cmd

def setVar (command : ExecCmd) (var : Bytes × Bytes) : ExecCmd :=
  { command with env := some (command.env.getD [] ++ [var.1 ++ equals :: var.2]) }

def after (command : ExecCmd) : Hooker → ExecCmd
  | .dir path => { command with dir := path }
  | .env vars => vars.foldl setVar command
  | .asUser _ => command

def entries : Hooker → List Bytes
  | .dir _ => []
  | .env vars => vars.map fun var => var.1 ++ equals :: var.2
  | .asUser _ => []

end Hooker

/-- Why `NewCommand` makes no command: there is nothing to run, or no program
behind the mark to wait for it. -/
inductive NoCommand where
  | skipped
  | panicked

/-- `NewCommand` up to its first look at `Env`. -/
def prepare (cmd : Command) (hookers : List Hooker) : Except NoCommand (Bool × Command) :=
  match cmd with
  | [] => .error .skipped
  | first :: rest =>
    let wait := decide (first = waitCommand)
    match hookers.foldl Hooker.before (if wait then rest else first :: rest) with
    | [] => .error .panicked
    | name :: args => .ok (wait, name :: args)

/-- `NewCommand` from there on. -/
def finish (host : ExecHost) (env : List Bytes) (hookers : List Hooker) (args : Command) :
    ExecCmd :=
  let command : ExecCmd := { args }
  let command := if env = [] then command else { command with env := some (host.environ ++ env) }
  hookers.foldl Hooker.after command

def newCommand (host : ExecHost) (env : List Bytes) (cmd : Command) (hookers : List Hooker) :
    Except NoCommand (Bool × ExecCmd) := do
  let (wait, args) ← prepare cmd hookers
  return (wait, finish host env hookers args)

theorem newCommand_of_error {cmd : Command} {hookers : List Hooker} {e : NoCommand}
    (h : prepare cmd hookers = .error e) (host : ExecHost) (env : List Bytes) :
    newCommand host env cmd hookers = .error e := by
  rw [newCommand, h]
  rfl

theorem newCommand_of_ok {cmd args : Command} {hookers : List Hooker} {wait : Bool}
    (h : prepare cmd hookers = .ok (wait, args)) (host : ExecHost) (env : List Bytes) :
    newCommand host env cmd hookers = .ok (wait, finish host env hookers args) := by
  rw [newCommand, h]
  rfl

def pidKey : Bytes := ascii "pid"

def pidEntry (pid : Int) : Bytes := ascii "pid=" ++ itoa pid

def pids (host : ExecHost) : Except NoCommand (Bool × ExecCmd) → List Bytes
  | .ok (_, command) => settings pidKey (command.environ host)
  | .error _ => []

def hookerEntries (hookers : List Hooker) : List Bytes := hookers.flatMap Hooker.entries

/-- Hookers set `pid` themselves, or leave all of the environment as it is and `pid`
has that value already. -/
def KeepsPid (host : ExecHost) (hookers : List Hooker) (pid : Int) : Prop :=
  settings pidKey (hookerEntries hookers) ≠ [] ∨
    hookerEntries hookers = [] ∧ (settings pidKey host.environ).getLast? = some (pidEntry pid)

theorem pidEntry_injective : Function.Injective pidEntry := by
  intro p q h
  exact itoa_injective (List.append_cancel_left h)

theorem settings_pidEntry (pid : Int) : settings pidKey [pidEntry pid] = [pidEntry pid] := by
  have hkey : envKey (pidKey ++ equals :: itoa pid) = some pidKey :=
    envKey_append (by decide) (by decide) (itoa pid)
  exact settings_cons_of_eq hkey []

private theorem env_setVars (vars : List (Bytes × Bytes)) (command : ExecCmd) :
    (vars.foldl Hooker.setVar command).env =
      if (Hooker.env vars).entries = [] then command.env
      else some (command.env.getD [] ++ (Hooker.env vars).entries) := by
  induction vars generalizing command with
  | nil => rfl
  | cons var vars ih =>
    rw [List.foldl_cons, ih]
    cases vars with
    | nil => rfl
    | cons next vars => simp [Hooker.entries, Hooker.setVar]

private theorem env_after (command : ExecCmd) (hooker : Hooker) :
    (Hooker.after command hooker).env =
      if hooker.entries = [] then command.env
      else some (command.env.getD [] ++ hooker.entries) := by
  cases hooker with
  | dir => rfl
  | env vars => exact env_setVars vars command
  | asUser => rfl

theorem env_hookers (hookers : List Hooker) (command : ExecCmd) :
    (hookers.foldl Hooker.after command).env =
      if hookerEntries hookers = [] then command.env
      else some (command.env.getD [] ++ hookerEntries hookers) := by
  induction hookers generalizing command with
  | nil => rfl
  | cons hooker hookers ih =>
    rw [List.foldl_cons, ih, env_after]
    have hentries : hookerEntries (hooker :: hookers) = hooker.entries ++ hookerEntries hookers :=
      List.flatMap_cons ..
    by_cases hfirst : hooker.entries = []
    · simp [hentries, hfirst]
    · by_cases hrest : hookerEntries hookers = []
      · simp [hentries, hfirst, hrest]
      · simp [hentries, hfirst, hrest]

theorem settings_finish_nil (host : ExecHost) (hookers : List Hooker) (args : Command) :
    settings pidKey ((finish host [] hookers args).environ host) =
      if hookerEntries hookers = [] then (settings pidKey host.environ).getLast?.toList
      else (settings pidKey (hookerEntries hookers)).getLast?.toList := by
  have henv := env_hookers hookers { args }
  by_cases hnone : hookerEntries hookers = []
  · rw [if_pos hnone] at henv ⊢
    exact settings_environ_inherited (by decide) host henv
  · rw [if_neg hnone] at henv ⊢
    have henviron : (finish host [] hookers args).environ host =
        dedupEnv (hookerEntries hookers) := by
      simp only [ExecCmd.environ, finish, if_true, henv, Option.getD_none, List.nil_append]
    rw [henviron, settings_dedupEnv]

/-- The `pid` of `Env` stands behind the environment and in front of the hookers'
variables. -/
theorem settings_finish_pid (host : ExecHost) (pid : Int) (hookers : List Hooker)
    (args : Command) :
    settings pidKey ((finish host [pidEntry pid] hookers args).environ host) =
      [(settings pidKey (hookerEntries hookers)).getLast?.getD (pidEntry pid)] := by
  have henv := env_hookers hookers { args, env := some (host.environ ++ [pidEntry pid]) }
  have hall : (finish host [pidEntry pid] hookers args).environ host =
      dedupEnv (host.environ ++ [pidEntry pid] ++ hookerEntries hookers) := by
    simp only [ExecCmd.environ, finish, List.cons_ne_nil, if_false, henv, Option.getD_some]
    by_cases hnone : hookerEntries hookers = []
    · simp [hnone]
    · simp [hnone]
  rw [hall, settings_dedupEnv, settings_append, settings_append, settings_pidEntry]
  cases hlast : (settings pidKey (hookerEntries hookers)).getLast? with
  | none =>
    rw [List.getLast?_eq_none_iff] at hlast
    simp [hlast]
  | some last =>
    rw [List.getLast?_append, hlast]
    rfl

theorem settings_finish_eq_iff (host : ExecHost) (pid : Int) (hookers : List Hooker)
    (args : Command) :
    settings pidKey ((finish host [pidEntry pid] hookers args).environ host) =
        settings pidKey ((finish host [] hookers args).environ host) ↔
      KeepsPid host hookers pid := by
  rw [settings_finish_pid, settings_finish_nil, KeepsPid]
  cases hlast : (settings pidKey (hookerEntries hookers)).getLast? with
  | none =>
    rw [List.getLast?_eq_none_iff] at hlast
    by_cases hnone : hookerEntries hookers = []
    · cases hown : (settings pidKey host.environ).getLast? with
      | none => simp [hnone]
      | some own => simp [hnone, eq_comm]
    · simp [hnone, hlast]
  | some last =>
    have hsome : settings pidKey (hookerEntries hookers) ≠ [] := by
      intro hnil
      rw [hnil] at hlast
      cases hlast
    have hentries : hookerEntries hookers ≠ [] := fun hnil => hsome (by rw [hnil]; rfl)
    simp [hsome, hentries]

/-- A call of `RunCaptureCmd`, or of `NewCommand` from elsewhere. -/
inductive CommandCall where
  | runCaptureCmd (pid : Int) (cmd : Bytes)
  | newCommand (cmd : Command) (hookers : List Hooker)

namespace CommandCall

def cmd : CommandCall → Command
  | .runCaptureCmd _ cmd => shell ++ [cmd]
  | .newCommand cmd _ => cmd

def hookers : CommandCall → List Hooker
  | .runCaptureCmd _ _ => []
  | .newCommand _ hookers => hookers

/-- The `pid` a command should be started with: its own, or what it would have if
`Env` had never been set. -/
def ownPids (host : ExecHost) : CommandCall → List Bytes
  | .runCaptureCmd pid _ => [pidEntry pid]
  | .newCommand cmd hookers => pids host (Executils.newCommand host [] cmd hookers)

theorem prepare_runCaptureCmd (pid : Int) (cmd : Bytes) :
    prepare (runCaptureCmd pid cmd).cmd (runCaptureCmd pid cmd).hookers =
      .ok (false, shell ++ [cmd]) := by
  have hfirst : ascii "/bin/sh" ≠ waitCommand := by decide
  simp [CommandCall.cmd, CommandCall.hookers, prepare, shell, hfirst]

end CommandCall

/-- Where a call is: `RunCaptureCmd` starts by setting `Env`, and `NewCommand` adds
`Env` to a command once it has found it not to be empty. -/
inductive EnvPoint where
  | idle
  | assigned
  | checked (wait : Bool) (args : Command)
  | built (result : Except NoCommand (Bool × ExecCmd))

/-- `Env`, the pids it has been set for, the last one first, and the calls. -/
structure CaptureEnv (ι : Type) where
  env : List Bytes
  assigned : List Int
  point : ι → EnvPoint

namespace CaptureEnv

def start : CaptureEnv ι := ⟨[], [], fun _ => .idle⟩

section Turns

variable (host : ExecHost) (calls : ι → CommandCall)

/-- The first part of `NewCommand`, up to the test of `Env`. -/
def check (s : CaptureEnv ι) (call : CommandCall) : EnvPoint :=
  match prepare call.cmd call.hookers with
  | .error e => .built (.error e)
  | .ok (wait, args) =>
    if s.env = [] then .built (.ok (wait, finish host [] call.hookers args))
    else .checked wait args

variable [DecidableEq ι]

def goto (s : CaptureEnv ι) (i : ι) (p : EnvPoint) : CaptureEnv ι :=
  { s with point := Function.update s.point i p }

/-- The next step of a call. -/
def turn (s : CaptureEnv ι) (i : ι) : Option (CaptureEnv ι) :=
  match calls i, s.point i with
  | .runCaptureCmd pid _, .idle =>
    some { s.goto i .assigned with env := [pidEntry pid], assigned := pid :: s.assigned }
  | .runCaptureCmd pid cmd, .assigned =>
    some (s.goto i (s.check host (.runCaptureCmd pid cmd)))
  | .newCommand cmd hookers, .idle =>
    some (s.goto i (s.check host (.newCommand cmd hookers)))
  | call, .checked wait args =>
    some (s.goto i (.built (.ok (wait, finish host s.env call.hookers args))))
  | .newCommand _ _, .assigned => none
  | _, .built _ => none

end Turns

/-- Every command is started with the `pid` it should have, whatever other calls have
done to `Env` by then. -/
def Isolated (host : ExecHost) (calls : ι → CommandCall) (s : CaptureEnv ι) : Prop :=
  ∀ i result, s.point i = .built result → pids host result = (calls i).ownPids host

/-- When a command gets the entries of `Env`, the last to have set it was a
`RunCaptureCmd` for the same pid, or the command keeps its `pid` in spite of it. -/
def Fit (host : ExecHost) (calls : ι → CommandCall) (s : CaptureEnv ι) (i : ι) : Prop :=
  match calls i, s.point i with
  | .runCaptureCmd pid _, .checked _ _ => s.assigned.head? = some pid
  | .newCommand _ hookers, .checked _ _ =>
    ∀ pid, s.assigned.head? = some pid → KeepsPid host hookers pid
  | _, _ => True

variable {host : ExecHost} {calls : ι → CommandCall} {s s' : CaptureEnv ι} {i : ι}

/-- `Env` holds the pid of the last assignment, and a call that is past the test of
`Env` has found one. -/
structure Sound (calls : ι → CommandCall) (s : CaptureEnv ι) : Prop where
  env : s.env = s.assigned.head?.toList.map pidEntry
  assigned : ∀ i, s.point i = .assigned → s.env ≠ []
  checked : ∀ i wait args, s.point i = .checked wait args →
    s.env ≠ [] ∧ prepare (calls i).cmd (calls i).hookers = .ok (wait, args)

theorem Sound.start (calls : ι → CommandCall) : (start : CaptureEnv ι).Sound calls where
  env := rfl
  assigned _ hi := by cases hi
  checked _ _ _ hi := by cases hi

/-- If `Env` is not empty, it holds the pid of the last assignment. -/
theorem Sound.exists_last (h : s.Sound calls) (henv : s.env ≠ []) :
    ∃ pid, s.assigned.head? = some pid ∧ s.env = [pidEntry pid] := by
  cases hlast : s.assigned.head? with
  | none => exact absurd (by rw [h.env, hlast]; rfl) henv
  | some pid => exact ⟨pid, rfl, by rw [h.env, hlast]; rfl⟩

inductive Turned (host : ExecHost) (calls : ι → CommandCall) (s : CaptureEnv ι) (i : ι) (fit : Prop)
    [DecidableEq ι] : CaptureEnv ι → Prop
  | assign (pid : Int) (hfit : fit) :
      Turned host calls s i fit
        { s.goto i .assigned with env := [pidEntry pid], assigned := pid :: s.assigned }
  | check (wait : Bool) (args : Command) (hfit : fit) (henv : s.env ≠ [])
      (hprepare : prepare (calls i).cmd (calls i).hookers = .ok (wait, args)) :
      Turned host calls s i fit (s.goto i (.checked wait args))
  | build (result : Except NoCommand (Bool × ExecCmd))
      (hfit : fit ↔ pids host result = (calls i).ownPids host) :
      Turned host calls s i fit (s.goto i (.built result))

section Cases

variable [DecidableEq ι]

private theorem Turned.checks {fit : Prop} (hfit : fit)
    (hown : s.env = [] → ∃ cmd hookers, calls i = .newCommand cmd hookers)
    (hprepared : ∀ e, prepare (calls i).cmd (calls i).hookers = .error e →
      ∃ cmd hookers, calls i = .newCommand cmd hookers) :
    Turned host calls s i fit (s.goto i (s.check host (calls i))) := by
  unfold CaptureEnv.check
  cases hprepare : prepare (calls i).cmd (calls i).hookers with
  | error e =>
    obtain ⟨cmd, hookers, hcall⟩ := hprepared e hprepare
    rw [hcall] at hprepare
    have hnew : newCommand host [] cmd hookers = .error e := newCommand_of_error hprepare host []
    refine .build _ ⟨fun _ => ?_, fun _ => hfit⟩
    rw [hcall, CommandCall.ownPids, hnew]
  | ok prepared =>
    obtain ⟨wait, args⟩ := prepared
    by_cases henv : s.env = []
    · obtain ⟨cmd, hookers, hcall⟩ := hown henv
      rw [hcall] at hprepare
      have hnew : newCommand host [] cmd hookers = .ok (wait, finish host [] hookers args) :=
        newCommand_of_ok hprepare host []
      dsimp only
      rw [if_pos henv]
      refine .build _ ⟨fun _ => ?_, fun _ => hfit⟩
      rw [hcall, CommandCall.ownPids, hnew]
      rfl
    · dsimp only
      rw [if_neg henv]
      exact .check wait args hfit henv hprepare

theorem turn_cases (hs : s.Sound calls) (h : s.turn host calls i = some s') :
    Turned host calls s i (s.Fit host calls i) s' := by
  unfold turn at h
  split at h
  case h_1 pid cmd hcall hpoint =>
    cases h
    exact .assign pid (by simp only [Fit, hcall, hpoint])
  case h_2 pid cmd hcall hpoint =>
    cases h
    rw [← hcall]
    refine .checks (by simp only [Fit, hcall, hpoint]) (fun henv => ?_) fun e he => ?_
    · exact absurd henv (hs.assigned i hpoint)
    · rw [hcall, CommandCall.prepare_runCaptureCmd] at he
      cases he
  case h_3 cmd hookers hcall hpoint =>
    cases h
    rw [← hcall]
    exact .checks (by simp only [Fit, hcall, hpoint]) (fun _ => ⟨cmd, hookers, hcall⟩)
      fun _ _ => ⟨cmd, hookers, hcall⟩
  case h_4 wait args hpoint =>
    cases h
    obtain ⟨henv, hprepare⟩ := hs.checked i wait args hpoint
    obtain ⟨last, hlast, hentry⟩ := hs.exists_last henv
    refine .build _ ?_
    rw [hentry, pids]
    cases hcall : calls i with
    | runCaptureCmd pid cmd =>
      have hsame : [pidEntry last] = [pidEntry pid] ↔ last = pid := by
        rw [List.singleton_inj, pidEntry_injective.eq_iff]
      simp only [Fit, hcall, hpoint, hlast, Option.some.injEq, CommandCall.ownPids,
        CommandCall.hookers, settings_finish_pid, hookerEntries, List.flatMap_nil, settings_nil,
        List.getLast?_nil, Option.getD_none, hsame]
    | newCommand cmd hookers =>
      rw [hcall] at hprepare
      have hnew : newCommand host [] cmd hookers = .ok (wait, finish host [] hookers args) :=
        newCommand_of_ok hprepare host []
      simp only [Fit, hcall, hpoint, hlast, Option.some.injEq, forall_eq', CommandCall.ownPids,
        CommandCall.hookers, hnew, pids, settings_finish_eq_iff]
  case h_5 => cases h
  case h_6 => cases h

private theorem point_goto {p q : EnvPoint} {j : ι} (h : (s.goto i p).point j = q) :
    j = i ∧ p = q ∨ s.point j = q := by
  rcases eq_or_ne j i with rfl | hne
  · simp only [goto, Function.update_self] at h
    exact .inl ⟨rfl, h⟩
  · simp only [goto, Function.update_of_ne hne] at h
    exact .inr h

theorem Sound.turned {fit : Prop} (h : s.Sound calls) (hturned : Turned host calls s i fit s') :
    s'.Sound calls := by
  cases hturned with
  | assign pid =>
    refine ⟨rfl, fun _ _ => List.cons_ne_nil _ _, fun j wait args hj => ?_⟩
    rcases point_goto hj with ⟨-, hp⟩ | hj
    · cases hp
    · exact ⟨List.cons_ne_nil _ _, (h.checked j wait args hj).2⟩
  | check wait args _ henv hprepare =>
    refine ⟨h.env, fun _ _ => henv, fun j wait' args' hj => ?_⟩
    rcases point_goto hj with ⟨rfl, hp⟩ | hj
    · cases hp
      exact ⟨henv, hprepare⟩
    · exact h.checked j wait' args' hj
  | build result =>
    refine ⟨h.env, fun j hj => ?_, fun j wait args hj => ?_⟩
    · rcases point_goto hj with ⟨-, hp⟩ | hj
      · cases hp
      · exact h.assigned j hj
    · rcases point_goto hj with ⟨-, hp⟩ | hj
      · cases hp
      · exact h.checked j wait args hj

theorem sound_turn (h : s.Sound calls) (hturn : s.turn host calls i = some s') : s'.Sound calls :=
  h.turned (turn_cases h hturn)

theorem Isolated.turned {fit : Prop} (h : s.Isolated host calls) (hfit : fit)
    (hturned : Turned host calls s i fit s') : s'.Isolated host calls := by
  intro j result hj
  cases hturned with
  | assign | check =>
    rcases point_goto hj with ⟨-, hp⟩ | hj
    · cases hp
    · exact h j result hj
  | build result' hpids =>
    rcases point_goto hj with ⟨rfl, hp⟩ | hj
    · cases hp
      exact hpids.1 hfit
    · exact h j result hj

theorem isolated_turn (h : s.Sound calls ∧ s.Isolated host calls) (hfit : s.Fit host calls i)
    (hturn : s.turn host calls i = some s') : s'.Sound calls ∧ s'.Isolated host calls := by
  have hturned := turn_cases h.1 hturn
  exact ⟨h.1.turned hturned, h.2.turned hfit hturned⟩

theorem not_isolated_of_unfit {fit : Prop} (hunfit : ¬fit)
    (hturned : Turned host calls s i fit s') : ¬s'.Isolated host calls := by
  intro h
  cases hturned with
  | assign _ hfit => exact hunfit hfit
  | check _ _ hfit => exact hunfit hfit
  | build result hpids => exact hunfit (hpids.2 (h i result (Function.update_self ..)))

theorem built_stays (hturn : s.turn host calls i = some s') {j : ι}
    {result : Except NoCommand (Bool × ExecCmd)} (hj : s.point j = .built result) :
    s'.point j = .built result := by
  have hne : j ≠ i := by
    rintro rfl
    unfold turn at hturn
    rw [hj] at hturn
    cases hcall : calls j with
    | runCaptureCmd | newCommand =>
      rw [hcall] at hturn
      cases hturn
  have hothers : s'.point j = s.point j := by
    unfold turn at hturn
    split at hturn
    case h_5 => cases hturn
    case h_6 => cases hturn
    all_goals
      cases hturn
      exact Function.update_of_ne hne ..
  rw [hothers, hj]

theorem not_isolated_turn (h : ¬s.Isolated host calls) (hturn : s.turn host calls i = some s') :
    ¬s'.Isolated host calls :=
  fun h' => h fun j result hj => h' j result (built_stays hturn hj)

/-- Every command of a run is started with the `pid` it should have exactly when
each one that adds `Env` to its environment does so after an assignment for its
own pid, or keeps its `pid` anyway. -/
theorem isolated_iff (host : ExecHost) (calls : ι → CommandCall) (turns : List ι)
    (s : CaptureEnv ι) (hrun : run (turn host calls) turns start = some s) :
    s.Isolated host calls ↔ Fits (turn host calls) (Fit host calls) turns start := by
  constructor
  · intro hisolated
    have hfits : Fits (turn host calls) (Fit host calls) turns start ∨ ¬s.Isolated host calls :=
      fits_or_marked (fun _ _ _ => sound_turn)
        (fun _ _ _ h hunfit hturn => not_isolated_of_unfit hunfit (turn_cases h hturn))
        (fun _ _ _ _ => not_isolated_turn) (Sound.start calls) hrun
    exact hfits.resolve_right fun hnot => hnot hisolated
  · intro hfits
    have hstart : (start : CaptureEnv ι).Isolated host calls := fun _ _ hi => by cases hi
    have hboth : s.Sound calls ∧ s.Isolated host calls :=
      run_keeps (fun _ _ _ => isolated_turn) ⟨Sound.start calls, hstart⟩ hfits hrun
    exact hboth.2

end Cases

end CaptureEnv

/-- The command of an M3 cycle, that of a capture the server has asked for, and the
`netstat` of that capture. -/
inductive SampleCall where
  | m3
  | requested
  | netstat
  deriving DecidableEq

open CaptureEnv CommandCall

def sampleCalls : SampleCall → CommandCall
  | .m3 => .runCaptureCmd 1 (ascii "gc.sh")
  | .requested => .runCaptureCmd 2 (ascii "gc.sh")
  | .netstat => .newCommand [ascii "netstat", ascii "-pan"] []

def plainHost : ExecHost := ⟨[ascii "HOME=/root"], fun _ => none⟩

def oneByOne : List SampleCall :=
  [.netstat, .m3, .m3, .m3, .requested, .requested, .requested]

theorem oneByOne_isolated : ∃ s,
    run (turn plainHost sampleCalls) oneByOne start = some s ∧
      s.Isolated plainHost sampleCalls := by
  have hruns : (run (turn plainHost sampleCalls) oneByOne start).isSome = true := by
    decide +kernel
  have hfits : Fits (turn plainHost sampleCalls) (Fit plainHost sampleCalls) oneByOne start := by
    iterate 7 refine (fits_cons_iff rfl).2 ⟨by trivial, ?_⟩
    trivial
  obtain ⟨s, hrun⟩ := Option.isSome_iff_exists.1 hruns
  exact ⟨s, hrun, (isolated_iff plainHost sampleCalls oneByOne s hrun).2 hfits⟩

/-- The second `RunCaptureCmd` sets `Env` before the first has constructed its
command, and `netstat` is run after both. -/
def overwritten : List SampleCall :=
  [.m3, .requested, .m3, .m3, .requested, .requested, .netstat, .netstat]

private theorem run_overwritten :
    (run (turn plainHost sampleCalls) overwritten start).map
        (fun s => (s.point .m3, s.point .netstat)) =
      some (.built (.ok (false, finish plainHost [pidEntry 2] [] (shell ++ [ascii "gc.sh"]))),
        .built (.ok (false,
          finish plainHost [pidEntry 2] [] [ascii "netstat", ascii "-pan"]))) := by
  rfl

theorem overwritten_pid : ∃ s m3 netstat,
    run (turn plainHost sampleCalls) overwritten start = some s ∧
      s.point .m3 = .built m3 ∧ pids plainHost m3 = [pidEntry 2] ∧
      s.point .netstat = .built netstat ∧ pids plainHost netstat = [pidEntry 2] ∧
      pids plainHost (newCommand plainHost [] [ascii "netstat", ascii "-pan"] []) = [] ∧
      ¬s.Isolated plainHost sampleCalls := by
  obtain ⟨s, hrun, hend⟩ := Option.map_eq_some_iff.1 run_overwritten
  obtain ⟨hm3, hnetstat⟩ := Prod.mk.inj hend
  have hpids : ∀ wait args,
      pids plainHost (.ok (wait, finish plainHost [pidEntry 2] [] args)) = [pidEntry 2] := by
    intro wait args
    exact settings_finish_pid plainHost 2 [] args
  refine ⟨s, _, _, hrun, hm3, hpids _ _, hnetstat, hpids _ _, by decide, fun hisolated => ?_⟩
  have hown : [pidEntry 2] = [pidEntry 1] := (hpids _ _).symm.trans (hisolated .m3 _ hm3)
  exact absurd (pidEntry_injective (List.singleton_inj.1 hown)) (by decide)

end YcAgent.Executils
