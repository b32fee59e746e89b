import Mathlib.Logic.Function.Basic
import YcAgent.Lib.Program

/-!
Goroutines: programs that take turns in any order, some of them in a loop, and
block where no answer to their next operation is possible. A relation between
the states of the goroutines and numbers, such that every step leads to a
smaller number and a state in which not all have finished has a step, shows
that every run comes to an end, and that none ends before all have finished.
Buffered channels are one way for an operation to block.
-/

namespace YcAgent.Lib.Program

variable {Op : Type} {Reply : Op → Type} {World α β : Type}

namespace Prog

/-- However it is answered, the program performs at most `k` operations. -/
def Within : Prog Op Reply α → Nat → Prop
  | .done _, _ => True
  | .act _ _, 0 => False
  | .act _ next, k + 1 => ∀ r, (next r).Within k

theorem Within.mono {p : Prog Op Reply α} {k l : Nat} (h : p.Within k) (hkl : k ≤ l) :
    p.Within l := by
  induction p generalizing k l with
  | done a => trivial
  | act op next ih =>
    cases k with
    | zero => exact h.elim
    | succ k =>
      cases l with
      | zero => omega
      | succ l => exact fun r => ih r (h r) (by omega)

theorem Within.bind {p : Prog Op Reply α} {next : α → Prog Op Reply β} {k l : Nat}
    (h : p.Within k) (hnext : ∀ a, (next a).Within l) : (p >>= next).Within (k + l) := by
  induction p generalizing k with
  | done a => exact (hnext a).mono (Nat.le_add_left l k)
  | act op cont ih =>
    cases k with
    | zero => exact h.elim
    | succ k =>
      rw [act_bind, Nat.succ_add]
      exact fun r => ih r (h r)

end Prog

/-- A program that performs at most `k` operations has returned when it has
performed that many. -/
theorem Steps.returned {sem : Semantics Op Reply World} {p p' : Prog Op Reply α} {w w' : World}
    {trace : Trace Op Reply World} {k : Nat} (hsteps : Steps sem p w trace p' w')
    (hp : p.Within k) (hlength : k ≤ trace.length) : ∃ a, p' = .done a := by
  induction hsteps generalizing k with
  | @rest p =>
    cases p with
    | done a => exact ⟨a, rfl⟩
    | act op next =>
      obtain rfl : k = 0 := Nat.le_zero.1 hlength
      exact hp.elim
  | @act _ _ _ _ r _ _ _ _ _ _ _ ih =>
    cases k with
    | zero => exact hp.elim
    | succ k => exact ih (hp r) (Nat.le_of_succ_le_succ hlength)

/-- `Plays p trace p'`: answered as in `trace`, the program `p` has performed its
operations and has `p'` left to do. -/
inductive Plays (p : Prog Op Reply α) : Trace Op Reply World → Prog Op Reply α → Prop
  | start : Plays p [] p
  | step {trace op next} (w : World) (r : Reply op) : Plays p trace (.act op next) →
      Plays p (trace ++ [⟨w, op, r⟩]) (next r)

namespace Plays

variable {p p' p'' : Prog Op Reply α} {trace more : Trace Op Reply World}

theorem trans (h : Plays p trace p') (hmore : Plays p' more p'') :
    Plays p (trace ++ more) p'' := by
  induction hmore with
  | start => rwa [List.append_nil]
  | step w r _ ih =>
    rw [← List.append_assoc]
    exact .step w r ih

theorem bind (h : Plays p trace p') (k : α → Prog Op Reply β) :
    Plays (p >>= k) trace (p' >>= k) := by
  induction h with
  | start => exact .start
  | step w r _ ih => exact .step w r ih

theorem of_map {f : α → β} {q : Prog Op Reply β}
    (h : Plays (p >>= fun a => .done (f a)) trace q) :
    ∃ p', Plays p trace p' ∧ q = p' >>= fun a => .done (f a) := by
  induction h with
  | start => exact ⟨p, .start, rfl⟩
  | step w r _ ih =>
    obtain ⟨p', hplays, heq⟩ := ih
    cases p' with
    | done a => cases heq
    | act op next =>
      rw [Prog.act_bind] at heq
      cases heq
      exact ⟨next r, .step w r hplays, rfl⟩

end Plays

namespace Prog

/-- Whatever the program is answered, `Q` holds of what it has done and of its
result. -/
def Leaves : Prog Op Reply α → (Trace Op Reply World → α → Prop) → Prop
  | .done a, Q => Q [] a
  | .act op next, Q => ∀ w r, (next r).Leaves fun trace a => Q (⟨w, op, r⟩ :: trace) a

theorem leaves_bind (p : Prog Op Reply α) (k : α → Prog Op Reply β)
    (Q : Trace Op Reply World → β → Prop) :
    (p >>= k).Leaves Q ↔ p.Leaves fun trace a =>
      (k a).Leaves fun more b => Q (trace ++ more) b := by
  induction p generalizing Q with
  | done a => rfl
  | act op next ih => exact forall_congr' fun w => forall_congr' fun r => ih r _

theorem Leaves.mono {p : Prog Op Reply α} {Q R : Trace Op Reply World → α → Prop}
    (h : p.Leaves Q) (hQR : ∀ trace a, Q trace a → R trace a) : p.Leaves R := by
  induction p generalizing Q R with
  | done a => exact hQR [] a h
  | act op next ih => exact fun w r => ih r (h w r) fun trace a => hQR _ a

end Prog

theorem Plays.leaves {p p' : Prog Op Reply α} {trace : Trace Op Reply World}
    {Q : Trace Op Reply World → α → Prop} (hplays : Plays p trace p') (h : p.Leaves Q) :
    p'.Leaves fun more a => Q (trace ++ more) a := by
  induction hplays with
  | start => exact h
  | @step trace op next w r _ ih =>
    apply Prog.Leaves.mono (ih w r)
    intro more a hQ
    rwa [List.append_assoc]

/-- What a goroutine has left to do of this pass of its loop, and the loop: it
goes on with another pass if one returns `true`. -/
structure Routine (Op : Type) (Reply : Op → Type) where
  body : Prog Op Reply Bool
  now : Prog Op Reply Bool

variable {ι : Type} [DecidableEq ι]

structure Machine (ι : Type) (Op : Type) (Reply : Op → Type) (World : Type) where
  routines : ι → Routine Op Reply
  world : World
  log : List (ι × Event Op Reply World)

namespace Machine

def put (m : Machine ι Op Reply World) (i : ι) (p : Prog Op Reply Bool) :
    ι → Routine Op Reply :=
  Function.update m.routines i ⟨(m.routines i).body, p⟩

/-- No goroutine has anything left to do. -/
def Finished (m : Machine ι Op Reply World) : Prop := ∀ i, (m.routines i).now = .done false

/-- One of the goroutines performs its next operation, or starts another pass. -/
inductive Step (perform : (op : Op) → World → Reply op → World → Prop) :
    Machine ι Op Reply World → Machine ι Op Reply World → Prop
  | act {m : Machine ι Op Reply World} {i op next r w} : (m.routines i).now = .act op next →
      perform op m.world r w →
      Step perform m ⟨m.put i (next r), w, m.log ++ [(i, ⟨m.world, op, r⟩)]⟩
  | again {m : Machine ι Op Reply World} {i} : (m.routines i).now = .done true →
      Step perform m ⟨m.put i (m.routines i).body, m.world, m.log⟩

variable {perform : (op : Op) → World → Reply op → World → Prop}

variable (perform) in
def Reaches : Machine ι Op Reply World → Machine ι Op Reply World → Prop :=
  Relation.ReflTransGen (Step perform)

variable (perform) in
/-- Every state that `inv` relates to a number has finished or has a step, and
all of its steps lead to smaller numbers. -/
structure Winds (inv : Machine ι Op Reply World → Nat → Prop) : Prop where
  step : ∀ m k m', inv m k → Step perform m m' → ∃ l < k, inv m' l
  progress : ∀ m k, inv m k → ¬m.Finished → ∃ m', Step perform m m'

section Winds

variable {inv : Machine ι Op Reply World → Nat → Prop} {m m' : Machine ι Op Reply World} {k : Nat}

theorem Winds.reaches (hwinds : Winds perform inv) (h : inv m k) (hm : Reaches perform m m') :
    ∃ l ≤ k, inv m' l := by
  induction hm with
  | refl => exact ⟨k, Nat.le_refl k, h⟩
  | tail _ hstep ih =>
    obtain ⟨l, hl, hinv⟩ := ih
    obtain ⟨l', hl', hinv'⟩ := hwinds.step _ _ _ hinv hstep
    exact ⟨l', by omega, hinv'⟩

/-- There is no run without end. -/
theorem Winds.acc (hwinds : Winds perform inv) (h : inv m k) :
    Acc (fun after before => Step perform before after) m := by
  induction k using Nat.strongRecOn generalizing m with
  | ind k ih =>
    refine ⟨m, fun m' hstep => ?_⟩
    obtain ⟨l, hl, hinv⟩ := hwinds.step m k m' h hstep
    exact ih l hl hinv

end Winds

/-- The goroutines take their steps in the order given, answered by `host`. -/
def schedule (host : (op : Op) → World → Option (Reply op × World)) :
    List ι → Machine ι Op Reply World → Option (Machine ι Op Reply World)
  | [], m => some m
  | i :: order, m =>
    match (m.routines i).now with
    | .act op next =>
      match host op m.world with
      | some (r, w) => schedule host order ⟨m.put i (next r), w, m.log ++ [(i, ⟨m.world, op, r⟩)]⟩
      | none => none
    | .done true => schedule host order ⟨m.put i (m.routines i).body, m.world, m.log⟩
    | .done false => none

theorem schedule_reaches {host : (op : Op) → World → Option (Reply op × World)}
    (hhost : ∀ op w r w', host op w = some (r, w') → perform op w r w') (order : List ι)
    {m m' : Machine ι Op Reply World} (h : m.schedule host order = some m') :
    Reaches perform m m' := by
  induction order generalizing m with
  | nil =>
    cases h
    exact .refl
  | cons i order ih =>
    rw [schedule] at h
    cases hnow : (m.routines i).now with
    | act op next =>
      rw [hnow] at h
      cases hanswer : host op m.world with
      | none => simp [hanswer] at h
      | some answer =>
        obtain ⟨r, w⟩ := answer
        simp only [hanswer] at h
        exact .head (.act hnow (hhost _ _ _ _ hanswer)) (ih h)
    | done b =>
      rw [hnow] at h
      cases b with
      | true => exact .head (.again hnow) (ih h)
      | false => cases h

variable {m : Machine ι Op Reply World} {i j : ι} {p : Prog Op Reply Bool}

theorem put_self : m.put i p i = ⟨(m.routines i).body, p⟩ := Function.update_self _ _ _

theorem put_of_ne (hne : j ≠ i) : m.put i p j = m.routines j := Function.update_of_ne hne _ _

end Machine

section Channels

variable {Chan : Type} {Val : Chan → Type}

inductive ChanOp (Val : Chan → Type) (Op : Type) where
  | send (c : Chan) (v : Val c)
  | recv (c : Chan)
  | close (c : Chan)
  | act (op : Op)

/-- A channel that is closed and empty is received from without a value. -/
abbrev ChanOp.Answer (Reply : Op → Type) : ChanOp Val Op → Type
  | .send _ _ => Unit
  | .recv c => Option (Val c)
  | .close _ => Unit
  | .act op => Reply op

structure ChanState (Val : Chan → Type) (World : Type) where
  buffer : (c : Chan) → List (Val c)
  closed : Chan → Bool
  world : World

variable [DecidableEq Chan]

namespace ChanState

def put (s : ChanState Val World) (c : Chan) (values : List (Val c)) : ChanState Val World :=
  { s with buffer := Function.update s.buffer c values }

def shut (s : ChanState Val World) (c : Chan) : ChanState Val World :=
  { s with closed := Function.update s.closed c true }

variable {s : ChanState Val World} {c d : Chan} {values : List (Val c)}

@[simp] theorem buffer_put : (s.put c values).buffer c = values := Function.update_self _ _ _

@[simp] theorem buffer_put_of_ne (hne : d ≠ c) : (s.put c values).buffer d = s.buffer d :=
  Function.update_of_ne hne _ _

@[simp] theorem closed_put : (s.put c values).closed = s.closed := rfl

@[simp] theorem closed_shut : (s.shut c).closed c = true := Function.update_self _ _ _

@[simp] theorem closed_shut_of_ne (hne : d ≠ c) : (s.shut c).closed d = s.closed d :=
  Function.update_of_ne hne _ _

@[simp] theorem buffer_shut : (s.shut c).buffer = s.buffer := rfl

end ChanState

/-- Sending waits for room and receiving for a value or the end. Sending on a
closed channel, and closing one twice, never get an answer. -/
def ChanPerform (cap : Chan → Nat) (perform : (op : Op) → World → Reply op → World → Prop) :
    (op : ChanOp Val Op) → ChanState Val World → op.Answer Reply → ChanState Val World → Prop
  | .send c v, s, _, s' => s.closed c = false ∧ (s.buffer c).length < cap c ∧
      s' = s.put c (s.buffer c ++ [v])
  | .recv c, s, some v, s' => ∃ rest, s.buffer c = v :: rest ∧ s' = s.put c rest
  | .recv c, s, none, s' => s.buffer c = [] ∧ s.closed c = true ∧ s' = s
  | .close c, s, _, s' => s.closed c = false ∧ s' = s.shut c
  | .act op, s, r, s' => ∃ w, perform op s.world r w ∧ s' = { s with world := w }

namespace ChanPerform

variable {cap : Chan → Nat} {perform : (op : Op) → World → Reply op → World → Prop}
  {s : ChanState Val World} {c : Chan}

theorem send {v : Val c} (hopen : s.closed c = false) (hroom : (s.buffer c).length < cap c) :
    ChanPerform cap perform (.send c v) s () (s.put c (s.buffer c ++ [v])) := ⟨hopen, hroom, rfl⟩

theorem recv {v : Val c} {rest : List (Val c)} (hbuffer : s.buffer c = v :: rest) :
    ChanPerform cap perform (.recv c) s (some v) (s.put c rest) := ⟨rest, hbuffer, rfl⟩

theorem recv_end (hbuffer : s.buffer c = []) (hclosed : s.closed c = true) :
    ChanPerform cap perform (.recv c) s none s := ⟨hbuffer, hclosed, rfl⟩

theorem close (hopen : s.closed c = false) :
    ChanPerform cap perform (.close c) s () (s.shut c) := ⟨hopen, rfl⟩

theorem act {op : Op} {r : Reply op} {w : World} (h : perform op s.world r w) :
    ChanPerform cap perform (.act op) s r { s with world := w } := ⟨w, h, rfl⟩

end ChanPerform

/-- Answers operations on channels, if they need not wait. -/
def chanHost (cap : Chan → Nat) (host : (op : Op) → World → Option (Reply op × World)) :
    (op : ChanOp Val Op) → ChanState Val World → Option (op.Answer Reply × ChanState Val World)
  | .send c v, s => if s.closed c = false ∧ (s.buffer c).length < cap c then
      some ((), s.put c (s.buffer c ++ [v])) else none
  | .recv c, s =>
    match s.buffer c with
    | v :: rest => some (some v, s.put c rest)
    | [] => if s.closed c then some (none, s) else none
  | .close c, s => if s.closed c then none else some ((), s.shut c)
  | .act op, s => (host op s.world).map fun (r, w) => (r, { s with world := w })

theorem chanHost_perform {cap : Chan → Nat} {host : (op : Op) → World → Option (Reply op × World)}
    {perform : (op : Op) → World → Reply op → World → Prop}
    (hhost : ∀ op w r w', host op w = some (r, w') → perform op w r w')
    (op : ChanOp Val Op) (s : ChanState Val World) (r : op.Answer Reply) (s' : ChanState Val World)
    (h : chanHost cap host op s = some (r, s')) : ChanPerform cap perform op s r s' := by
  cases op with
  | send c v =>
    rw [chanHost] at h
    split at h
    case isTrue hroom =>
      cases h
      exact ChanPerform.send hroom.1 hroom.2
    case isFalse => cases h
  | recv c =>
    rw [chanHost] at h
    split at h
    case h_1 v rest hbuffer =>
      cases h
      exact ChanPerform.recv hbuffer
    case h_2 hbuffer =>
      split at h
      case isTrue hclosed =>
        cases h
        exact ChanPerform.recv_end hbuffer hclosed
      case isFalse => cases h
  | close c =>
    rw [chanHost] at h
    split at h
    case isTrue => cases h
    case isFalse hopen =>
      cases h
      exact ChanPerform.close (eq_false_of_ne_true hopen)
  | act op =>
    obtain ⟨⟨r', w⟩, hanswer, heq⟩ := Option.map_eq_some_iff.1 h
    cases heq
    exact ChanPerform.act (hhost _ _ _ _ hanswer)

def ChanOp.chan : ChanOp Val Op → Option Chan
  | .send c _ => some c
  | .recv c => some c
  | .close c => some c
  | .act _ => none

section Frame

variable {cap : Chan → Nat} {perform : (op : Op) → World → Reply op → World → Prop}
  {op : ChanOp Val Op} {s s' : ChanState Val World} {r : op.Answer Reply} {c : Chan}

theorem ChanPerform.frame (h : ChanPerform cap perform op s r s') (hc : op.chan ≠ some c) :
    s'.buffer c = s.buffer c ∧ s'.closed c = s.closed c := by
  cases op with
  | send d v =>
    have hne : c ≠ d := fun heq => hc (congrArg some heq.symm)
    obtain ⟨_, _, rfl⟩ := h
    exact ⟨ChanState.buffer_put_of_ne hne, rfl⟩
  | recv d =>
    have hne : c ≠ d := fun heq => hc (congrArg some heq.symm)
    cases r with
    | none =>
      obtain ⟨_, _, rfl⟩ := h
      exact ⟨rfl, rfl⟩
    | some v =>
      obtain ⟨rest, _, rfl⟩ := h
      exact ⟨ChanState.buffer_put_of_ne hne, rfl⟩
  | close d =>
    have hne : c ≠ d := fun heq => hc (congrArg some heq.symm)
    obtain ⟨_, rfl⟩ := h
    exact ⟨rfl, ChanState.closed_shut_of_ne hne⟩
  | act op =>
    obtain ⟨w, _, rfl⟩ := h
    exact ⟨rfl, rfl⟩

end Frame

/-- A program that uses no channels. -/
def Prog.local (p : Prog Op Reply α) : Prog (ChanOp Val Op) (ChanOp.Answer Reply) α :=
  p.interpret fun op => .perform (.act op)

def localLog {ι : Type} [DecidableEq ι] (i : ι)
    (log : List (ι × Event (ChanOp Val Op) (ChanOp.Answer Reply) (ChanState Val World))) :
    Trace Op Reply World :=
  log.filterMap fun
    | (j, ⟨s, .act op, r⟩) => if j = i then some ⟨s.world, op, r⟩ else none
    | _ => none

/-- How often a goroutine has received from a channel, a value or the end. -/
def receipts {ι : Type} [DecidableEq ι] (i : ι) (c : Chan)
    (log : List (ι × Event (ChanOp Val Op) (ChanOp.Answer Reply) (ChanState Val World))) : Nat :=
  log.countP fun
    | (j, ⟨_, .recv d, _⟩) => j = i ∧ d = c
    | _ => false

section Log

variable {ι : Type} [DecidableEq ι] {i j : ι} {s : ChanState Val World} {c : Chan}
  (log : List (ι × Event (ChanOp Val Op) (ChanOp.Answer Reply) (ChanState Val World)))

omit [DecidableEq Chan] in
theorem localLog_act (op : Op) (r : Reply op) :
    localLog i (log ++ [(i, ⟨s, .act op, r⟩)]) = localLog i log ++ [⟨s.world, op, r⟩] := by
  simp [localLog]

omit [DecidableEq Chan] in
theorem localLog_of_ne (hne : j ≠ i) (e : Event (ChanOp Val Op) (ChanOp.Answer Reply) _) :
    localLog i (log ++ [(j, e)]) = localLog i log := by
  obtain ⟨s, op, r⟩ := e
  cases op <;> simp [localLog, hne]

omit [DecidableEq Chan] in
theorem localLog_chan {op : ChanOp Val Op} (hop : op.chan ≠ none) (r : op.Answer Reply) :
    localLog i (log ++ [(j, ⟨s, op, r⟩)]) = localLog i log := by
  cases op with
  | act op => exact absurd rfl hop
  | _ => simp [localLog]

theorem receipts_recv (r : Option (Val c)) :
    receipts i c (log ++ [(i, ⟨s, .recv c, r⟩)]) = receipts i c log + 1 := by
  simp [receipts]

theorem receipts_of_chan {op : ChanOp Val Op} (hop : op.chan ≠ some c) (r : op.Answer Reply) :
    receipts i c (log ++ [(j, ⟨s, op, r⟩)]) = receipts i c log := by
  cases op with
  | recv d =>
    have hne : d ≠ c := fun heq => hop (congrArg some heq)
    simp [receipts, hne]
  | _ => simp [receipts]

theorem receipts_of_ne (hne : j ≠ i) (e : Event (ChanOp Val Op) (ChanOp.Answer Reply) _) :
    receipts i c (log ++ [(j, e)]) = receipts i c log := by
  obtain ⟨s, op, r⟩ := e
  cases op <;> simp [receipts, hne]

end Log

end Channels

end YcAgent.Lib.Program
