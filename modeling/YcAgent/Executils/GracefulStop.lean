import YcAgent.Capture.ProcessTable
import YcAgent.Executils.Shell
import YcAgent.Lib.Moves

/-!
`GracefulStop` and `KillAndWait` of a started command. The process is
interrupted, and killed if that fails or does not help in time; whoever calls
`Wait` first reaps it. The process may exit at any moment, on its own account or
because of a signal, and the goroutine that waits for it takes its steps at any
time.
-/

namespace YcAgent.Executils

open Capture Lib.Moves

inductive StopSignal where
  | interrupt
  | kill
  deriving DecidableEq, Repr

/-- The statement the caller is at. `kill` and `wait` are those of `KillAndWait`,
`killLate` and `receive` those after the grace period. -/
inductive StopPoint where
  | signal
  | kill
  | wait
  | spawn
  | select
  | killLate
  | receive
  | returned (err : Option IOError)
  deriving DecidableEq, Repr

inductive WaiterPoint where
  | absent
  | waiting
  | sending (err : Option IOError)
  | ended
  deriving DecidableEq, Repr

/-- The process with the signals that were sent to it and the calls of `Wait` that
returned, and the caller, its goroutine and their channel. -/
structure StopState where
  life : Life
  sent : List (StopSignal × Option IOError) := []
  waits : Nat := 0
  point : StopPoint
  waiter : WaiterPoint := .absent
  done : Option (Option IOError) := none
  expired : Bool := false
  deriving DecidableEq, Repr

inductive StopMove where
  /-- The process exits. -/
  | exit
  /-- The grace period is over. -/
  | expire
  /-- The caller goes on; `err` is what the call it makes returns. -/
  | next (err : Option IOError)
  /-- The first case of the `select`. -/
  | received
  /-- The second case of the `select`. -/
  | timeout
  | waiter (err : Option IOError)
  deriving DecidableEq, Repr

namespace StopState

/-- `Process.Signal`. A process that has been waited for is not signalled. -/
def signalled (s : StopState) (signal : StopSignal) (err : Option IOError) : Option StopState :=
  if s.life = .reaped ∧ err = none then none
  else some { s with sent := s.sent ++ [(signal, err)] }

/-- `exec.Cmd.Wait`, which returns when the process has exited, and at once if it
was called before. The output of the command goes to a file or nowhere; if it had
to be copied, `Wait` would also wait for the end of the copies. -/
def wait (s : StopState) (err : Option IOError) : Option StopState :=
  match s.life with
  | .running => none
  | .exited => some { s with life := .reaped, waits := s.waits + 1 }
  | .reaped =>
    if err = some "exec: Wait was already called" then some { s with waits := s.waits + 1 }
    else none

/-- Where `GracefulStop` starts. A `WaitCmd` is never stopped, and there is nothing
to stop without a process. -/
def entry (cmd : CmdManager) (started : Bool) : StopPoint :=
  if cmd.isWaitCmd || cmd.skipped || !started then .returned none else .signal

def start (cmd : CmdManager) (started : Bool) (life : Life) : StopState :=
  { life, point := entry cmd started }

/-- The caller's next statement, the `select` apart. -/
def next (s : StopState) (err : Option IOError) : Option StopState :=
  match s.point with
  | .signal => (s.signalled .interrupt err).map fun s =>
    { s with point := if err = none then .spawn else .kill }
  | .kill => (s.signalled .kill err).map fun s =>
    { s with point := if err = none then .wait else .returned err }
  | .wait => (s.wait err).map fun s => { s with point := .returned none }
  | .spawn => some { s with point := .select, waiter := .waiting }
  | .killLate => (s.signalled .kill err).map fun s => { s with point := .receive }
  | .receive => s.done.map fun e => { s with done := none, point := .returned e }
  | .select | .returned _ => none

def step (s : StopState) : StopMove → Option StopState
  | .exit => if s.life = .running then some { s with life := .exited } else none
  | .expire => if s.point = .select then some { s with expired := true } else none
  | .next err => s.next err
  | .received =>
    if s.point = .select then
      s.done.map fun e => { s with done := none, point := .returned e }
    else none
  | .timeout =>
    if s.point = .select ∧ s.expired = true then some { s with point := .killLate } else none
  | .waiter err =>
    match s.waiter with
    | .waiting => (s.wait err).map fun s => { s with waiter := .sending err }
    | .sending e => if s.done = none then some { s with done := some e, waiter := .ended } else none
    | .absent | .ended => none

end StopState

def StopMove.own : StopMove → Bool
  | .exit | .expire => false
  | _ => true

namespace StopState

structure Untouched (s : StopState) : Prop where
  life : s.life ≠ .reaped
  waits : s.waits = 0
  waiter : s.waiter = .absent
  done : s.done = none

/-- The process has been waited for once, and there is no goroutine left. -/
structure Reaped (s : StopState) : Prop where
  life : s.life = .reaped
  waits : s.waits = 1
  waiter : s.waiter = .absent ∨ s.waiter = .ended
  done : s.done = none

/-- The goroutine waits for the process once and offers the result once. -/
def Waited (s : StopState) : Prop :=
  match s.waiter with
  | .absent => False
  | .waiting => s.life ≠ .reaped ∧ s.waits = 0 ∧ s.done = none
  | .sending _ => s.life = .reaped ∧ s.waits = 1 ∧ s.done = none
  | .ended => s.life = .reaped ∧ s.waits = 1 ∧ s.done ≠ none

/-- How a call that returns `err` ends: the process has left in time, was killed after
the timer or for want of an interrupt, or could be neither interrupted nor killed. -/
inductive Stopped (s : StopState) : Option IOError → Prop
  | inTime {err} (hreaped : s.Reaped) (hsent : s.sent = [(.interrupt, none)]) : Stopped s err
  | killed {err e} (hreaped : s.Reaped) (hexpired : s.expired = true)
      (hsent : s.sent = [(.interrupt, none), (.kill, e)]) : Stopped s err
  | notInterrupted {e} (hreaped : s.Reaped)
      (hsent : s.sent = [(.interrupt, some e), (.kill, none)]) : Stopped s none
  | failed {e e'} (huntouched : s.Untouched)
      (hsent : s.sent = [(.interrupt, some e), (.kill, some e')]) : Stopped s (some e')

def Sound (s : StopState) : Prop :=
  match s.point with
  | .signal => s.Untouched ∧ s.sent = []
  | .kill => s.Untouched ∧ ∃ e, s.sent = [(.interrupt, some e)]
  | .wait => s.Untouched ∧ ∃ e, s.sent = [(.interrupt, some e), (.kill, none)]
  | .spawn => s.Untouched ∧ s.sent = [(.interrupt, none)]
  | .select => s.Waited ∧ s.sent = [(.interrupt, none)]
  | .killLate => s.Waited ∧ s.expired = true ∧ s.sent = [(.interrupt, none)]
  | .receive => s.Waited ∧ s.expired = true ∧ ∃ e, s.sent = [(.interrupt, none), (.kill, e)]
  | .returned err => s.Stopped err

def callerLeft : StopPoint → Nat
  | .signal => 7
  | .spawn => 6
  | .select => 3
  | .killLate => 2
  | .kill => 2
  | .wait => 1
  | .receive => 1
  | .returned _ => 0

def waiterLeft : WaiterPoint → Nat
  | .waiting => 2
  | .sending _ => 1
  | .absent | .ended => 0

def left (s : StopState) : Nat := callerLeft s.point + waiterLeft s.waiter

section Steps

variable {s s' : StopState}

theorem Untouched.exit (h : s.Untouched) : ({ s with life := .exited } : StopState).Untouched :=
  ⟨nofun, h.waits, h.waiter, h.done⟩

theorem Untouched.signalled (h : s.Untouched) {sent : List (StopSignal × Option IOError)}
    {point : StopPoint} : ({ s with sent, point } : StopState).Untouched :=
  ⟨h.life, h.waits, h.waiter, h.done⟩

theorem Waited.exit (h : s.Waited) (hrunning : s.life = .running) :
    ({ s with life := .exited } : StopState).Waited := by
  cases hwaiter : s.waiter with
  | absent => simp [Waited, hwaiter] at h
  | waiting => simpa [Waited, hwaiter, hrunning] using h
  | sending e => simp [Waited, hwaiter, hrunning] at h
  | ended => simp [Waited, hwaiter, hrunning] at h

theorem Stopped.exit {err : Option IOError} (h : s.Stopped err) (hrunning : s.life = .running) :
    ({ s with life := .exited } : StopState).Stopped err := by
  have hno (hreaped : s.Reaped) : False := by
    have hlife := hreaped.life
    rw [hrunning] at hlife
    cases hlife
  cases h with
  | inTime hreaped _ => exact (hno hreaped).elim
  | killed hreaped _ _ => exact (hno hreaped).elim
  | notInterrupted hreaped _ => exact (hno hreaped).elim
  | failed huntouched hsent => exact .failed huntouched.exit hsent

/-- What is in the channel comes from a goroutine that has ended. -/
theorem Waited.reaped (h : s.Waited) {e : Option IOError} (hdone : s.done = some e)
    {point : StopPoint} : ({ s with done := none, point := point } : StopState).Reaped := by
  cases hwaiter : s.waiter with
  | absent => simp [Waited, hwaiter] at h
  | waiting => simp [Waited, hwaiter, hdone] at h
  | sending e => simp [Waited, hwaiter, hdone] at h
  | ended =>
    simp only [Waited, hwaiter] at h
    exact ⟨h.1, h.2.1, .inr rfl, rfl⟩

theorem Waited.turn (h : s.Waited) {err : Option IOError} (hstep : s.step (.waiter err) = some s') :
    s'.Waited ∧ s'.left < s.left ∧ s'.point = s.point ∧ s'.sent = s.sent ∧
      s'.expired = s.expired := by
  cases hwaiter : s.waiter with
  | absent => simp [step, hwaiter] at hstep
  | ended => simp [step, hwaiter] at hstep
  | waiting =>
    simp only [Waited, hwaiter] at h
    cases hlife : s.life with
    | running => simp [step, hwaiter, wait, hlife] at hstep
    | reaped => exact absurd hlife h.1
    | exited =>
      simp only [step, hwaiter, wait, hlife, Option.map_some, Option.some.injEq] at hstep
      subst hstep
      simp [Waited, h.2, left, waiterLeft, hwaiter]
  | sending e =>
    simp only [Waited, hwaiter] at h
    simp only [step, hwaiter, h.2.2, if_true, Option.some.injEq] at hstep
    subst hstep
    simp [Waited, h.1, h.2.1, left, waiterLeft, hwaiter]

theorem signalled_eq {signal : StopSignal} {err : Option IOError}
    (h : s.signalled signal err = some s') : s' = { s with sent := s.sent ++ [(signal, err)] } := by
  unfold signalled at h
  split at h
  · cases h
  · exact (Option.some_injective _ h).symm

theorem sound_next (h : s.Sound) {err : Option IOError} (hstep : s.next err = some s') :
    s'.Sound ∧ s'.left < s.left := by
  unfold Sound at h
  unfold next at hstep
  split at hstep
  case h_1 hpoint =>
      rw [hpoint] at h
      obtain ⟨s₁, hsignalled, rfl⟩ := Option.map_eq_some_iff.1 hstep
      rw [signalled_eq hsignalled]
      cases err with
      | none => exact ⟨⟨h.1.signalled, by simp [h.2]⟩, by simp [left, hpoint, callerLeft]⟩
      | some e => exact ⟨⟨h.1.signalled, e, by simp [h.2]⟩, by simp [left, hpoint, callerLeft]⟩
  case h_2 hpoint =>
      rw [hpoint] at h
      obtain ⟨huntouched, e, hsent⟩ := h
      obtain ⟨s₁, hsignalled, rfl⟩ := Option.map_eq_some_iff.1 hstep
      rw [signalled_eq hsignalled]
      cases err with
      | none =>
        exact ⟨⟨huntouched.signalled, e, by simp [hsent]⟩, by simp [left, hpoint, callerLeft]⟩
      | some e' =>
        exact ⟨.failed (e := e) huntouched.signalled (by simp [hsent]),
          by simp [left, hpoint, callerLeft]⟩
  case h_3 hpoint =>
      rw [hpoint] at h
      obtain ⟨huntouched, e, hsent⟩ := h
      obtain ⟨s₁, hwait, rfl⟩ := Option.map_eq_some_iff.1 hstep
      unfold wait at hwait
      split at hwait
      · cases hwait
      · cases hwait
        refine ⟨.notInterrupted (e := e) ?_ hsent, by simp [left, hpoint, callerLeft]⟩
        exact ⟨rfl, by simp [huntouched.waits], .inl huntouched.waiter, huntouched.done⟩
      · next hlife => exact absurd hlife huntouched.life
  case h_4 hpoint =>
      rw [hpoint] at h
      cases hstep
      exact ⟨⟨⟨h.1.life, h.1.waits, h.1.done⟩, h.2⟩,
        by simp [left, hpoint, callerLeft, waiterLeft, h.1.waiter]⟩
  case h_5 hpoint =>
      rw [hpoint] at h
      obtain ⟨hwaited, hexpired, hsent⟩ := h
      obtain ⟨s₁, hsignalled, rfl⟩ := Option.map_eq_some_iff.1 hstep
      rw [signalled_eq hsignalled]
      exact ⟨⟨hwaited, hexpired, err, by simp [hsent]⟩, by simp [left, hpoint, callerLeft]⟩
  case h_6 hpoint =>
      rw [hpoint] at h
      obtain ⟨hwaited, hexpired, e, hsent⟩ := h
      obtain ⟨e', hdone, rfl⟩ := Option.map_eq_some_iff.1 hstep
      exact ⟨.killed (hwaited.reaped hdone) hexpired hsent, by simp [left, hpoint, callerLeft]⟩
  case h_7 => cases hstep
  case h_8 => cases hstep

theorem sound_waiter (h : s.Sound) {err : Option IOError} (hstep : s.step (.waiter err) = some s') :
    s'.Sound ∧ s'.left < s.left := by
  have hpresent : s.waiter ≠ .absent ∧ s.waiter ≠ .ended := by
    constructor <;> intro hwaiter <;> simp [step, hwaiter] at hstep
  have hnever (huntouched : s.Untouched) : False := hpresent.1 huntouched.waiter
  have hover (hreaped : s.Reaped) : False := hreaped.waiter.elim hpresent.1 hpresent.2
  unfold Sound at h
  split at h
  case h_5 hpoint =>
      obtain ⟨hwaited, hleft, hsame, hsent, -⟩ := h.1.turn hstep
      rw [Sound, hsame, hpoint]
      exact ⟨⟨hwaited, hsent.trans h.2⟩, hleft⟩
  case h_6 hpoint =>
      obtain ⟨hwaited, hleft, hsame, hsent, hexpired⟩ := h.1.turn hstep
      rw [Sound, hsame, hpoint]
      exact ⟨⟨hwaited, hexpired.trans h.2.1, hsent.trans h.2.2⟩, hleft⟩
  case h_7 hpoint =>
      obtain ⟨hwaited, hleft, hsame, hsent, hexpired⟩ := h.1.turn hstep
      obtain ⟨-, hlate, e, hkill⟩ := h
      rw [Sound, hsame, hpoint]
      exact ⟨⟨hwaited, hexpired.trans hlate, e, hsent.trans hkill⟩, hleft⟩
  case h_8 =>
      cases h with
      | failed huntouched _ => exact (hnever huntouched).elim
      | _ hreaped => exact (hover hreaped).elim
  all_goals exact (hnever h.1).elim

theorem sound_exit (h : s.Sound) (hrunning : s.life = .running) :
    ({ s with life := .exited } : StopState).Sound := by
  unfold Sound at h ⊢
  dsimp only
  split at h
  case h_5 => exact ⟨h.1.exit hrunning, h.2⟩
  case h_6 => exact ⟨h.1.exit hrunning, h.2⟩
  case h_7 => exact ⟨h.1.exit hrunning, h.2⟩
  case h_8 => exact h.exit hrunning
  all_goals exact ⟨h.1.exit, h.2⟩

/-- The steps of the process and the timer leave the agent's as they are. -/
theorem sound_step {move : StopMove} (h : s.Sound) (hstep : s.step move = some s') :
    s'.Sound ∧ (cond move.own 1 0) + s'.left ≤ s.left := by
  cases move with
  | next err =>
    obtain ⟨hsound, hleft⟩ := sound_next h hstep
    exact ⟨hsound, Nat.one_add_le_iff.2 hleft⟩
  | waiter err =>
    obtain ⟨hsound, hleft⟩ := sound_waiter h hstep
    exact ⟨hsound, Nat.one_add_le_iff.2 hleft⟩
  | exit =>
    simp only [step, Option.ite_none_right_eq_some, Option.some.injEq] at hstep
    rw [← hstep.2]
    exact ⟨sound_exit h hstep.1, by simp [StopMove.own, left]⟩
  | expire =>
    simp only [step, Option.ite_none_right_eq_some, Option.some.injEq] at hstep
    rw [← hstep.2]
    refine ⟨?_, by simp [StopMove.own, left]⟩
    simp only [Sound, hstep.1] at h ⊢
    exact h
  | received =>
    simp only [step, Option.ite_none_right_eq_some, Option.map_eq_some_iff] at hstep
    obtain ⟨hpoint, e, hdone, rfl⟩ := hstep
    simp only [Sound, hpoint] at h
    refine ⟨.inTime (h.1.reaped hdone) h.2, ?_⟩
    simp only [StopMove.own, cond_true, left, callerLeft, hpoint]
    omega
  | timeout =>
    simp only [step, Option.ite_none_right_eq_some, Option.some.injEq] at hstep
    obtain ⟨⟨hpoint, hexpired⟩, rfl⟩ := hstep
    simp only [Sound, hpoint] at h
    refine ⟨⟨h.1, hexpired, h.2⟩, ?_⟩
    simp only [StopMove.own, cond_true, left, callerLeft, hpoint]
    omega

theorem sound_run {moves : List StopMove} (h : s.Sound) (hrun : run step moves s = some s') :
    s'.Sound ∧ moves.countP StopMove.own + s'.left ≤ s.left := by
  induction moves generalizing s with
  | nil =>
    cases hrun
    exact ⟨h, by simp⟩
  | cons move moves ih =>
    obtain ⟨s₁, hstep, hrest⟩ := Option.bind_eq_some_iff.1 hrun
    obtain ⟨hsound, hhead⟩ := sound_step h hstep
    obtain ⟨hsound', htail⟩ := ih hsound hrest
    refine ⟨hsound', ?_⟩
    rw [List.countP_cons]
    cases hown : move.own <;> simp only [hown, cond_true, cond_false] at hhead ⊢ <;> simp <;> omega

end Steps

/-- `GracefulStop` is called on a process that was not waited for. -/
theorem sound_start {cmd : CmdManager} {started : Bool} {life : Life}
    (hentry : entry cmd started = .signal) (hlife : life ≠ .reaped) :
    (start cmd started life).Sound := by
  rw [Sound, start, hentry]
  exact ⟨⟨hlife, rfl, rfl, rfl⟩, rfl⟩

/-- The caller is blocked as long as the process runs. -/
structure Blocked (s : StopState) : Prop where
  life : s.life = .running
  point : s.point = .wait ∨ s.point = .select ∧ s.expired = false ∨ s.point = .receive

/-- The caller, or the goroutine it has started, can make a step. -/
def CanGoOn (s : StopState) : Prop := ∃ move, StopMove.own move = true ∧ (s.step move).isSome

theorem Waited.cases {s : StopState} (h : s.Waited) :
    s.CanGoOn ∨ s.life = .running ∨ ∃ e, s.done = some e := by
  cases hwaiter : s.waiter with
  | absent => simp [Waited, hwaiter] at h
  | sending e =>
    simp only [Waited, hwaiter] at h
    exact .inl ⟨.waiter none, rfl, by simp [step, hwaiter, h.2.2]⟩
  | ended =>
    simp only [Waited, hwaiter] at h
    exact .inr (.inr (Option.ne_none_iff_exists'.1 h.2.2))
  | waiting =>
    simp only [Waited, hwaiter] at h
    cases hlife : s.life with
    | running => exact .inr (.inl rfl)
    | reaped => exact absurd hlife h.1
    | exited => exact .inl ⟨.waiter none, rfl, by simp [step, hwaiter, wait, hlife]⟩

theorem Sound.progress {s : StopState} (h : s.Sound) :
    (∃ err, s.point = .returned err) ∨ s.CanGoOn ∨ s.Blocked := by
  have hgo {P : Prop} (move : StopMove) (hown : StopMove.own move = true)
      (hsome : (s.step move).isSome) : P ∨ s.CanGoOn ∨ s.Blocked := .inr (.inl ⟨move, hown, hsome⟩)
  cases hpoint : s.point with
  | returned err => exact .inl ⟨err, rfl⟩
  | signal =>
    simp only [Sound, hpoint] at h
    exact hgo (.next none) rfl (by simp [step, next, hpoint, signalled, h.1.life])
  | kill =>
    simp only [Sound, hpoint] at h
    exact hgo (.next none) rfl (by simp [step, next, hpoint, signalled, h.1.life])
  | spawn => exact hgo (.next none) rfl (by simp [step, next, hpoint])
  | killLate =>
    exact hgo (.next (some "os: process already finished")) rfl
      (by simp [step, next, hpoint, signalled])
  | wait =>
    simp only [Sound, hpoint] at h
    cases hlife : s.life with
    | running => exact .inr (.inr ⟨hlife, .inl hpoint⟩)
    | reaped => exact absurd hlife h.1.life
    | exited => exact hgo (.next none) rfl (by simp [step, next, hpoint, wait, hlife])
  | select =>
    simp only [Sound, hpoint] at h
    rcases h.1.cases with hgoes | hrunning | ⟨e, hdone⟩
    · exact .inr (.inl hgoes)
    · cases hexpired : s.expired with
      | true => exact hgo .timeout rfl (by simp [step, hpoint, hexpired])
      | false => exact .inr (.inr ⟨hrunning, .inr (.inl ⟨hpoint, hexpired⟩)⟩)
    · exact hgo .received rfl (by simp [step, hpoint, hdone])
  | receive =>
    simp only [Sound, hpoint] at h
    rcases h.1.cases with hgoes | hrunning | ⟨e, hdone⟩
    · exact .inr (.inl hgoes)
    · exact .inr (.inr ⟨hrunning, .inr (.inr hpoint)⟩)
    · exact hgo (.next none) rfl (by simp [step, next, hpoint, hdone])

end StopState

section Results

variable {cmd : CmdManager} {started : Bool} {life : Life} {moves : List StopMove} {s : StopState}

/-- When `GracefulStop` returns, the process has been waited for exactly once and no
goroutine is left, unless it could neither be interrupted nor killed. The kill
comes only after a failed interrupt or the grace period. -/
theorem gracefulStop_stops (hentry : StopState.entry cmd started = .signal) (hlife : life ≠ .reaped)
    (hrun : run StopState.step moves (.start cmd started life) = some s) {err : Option IOError}
    (hreturned : s.point = .returned err) : s.Stopped err := by
  have hsound := (StopState.sound_run (StopState.sound_start hentry hlife) hrun).1
  simpa only [StopState.Sound, hreturned] using hsound

/-- `GracefulStop` takes at most seven steps, those of its goroutine included, and
until it returns it can go on unless the process still runs. -/
theorem gracefulStop_returns (hentry : StopState.entry cmd started = .signal)
    (hlife : life ≠ .reaped) (hrun : run StopState.step moves (.start cmd started life) = some s) :
    moves.countP StopMove.own ≤ 7 ∧
      ((∃ err, s.point = .returned err) ∨ s.CanGoOn ∨ s.Blocked) := by
  obtain ⟨hsound, hcount⟩ := StopState.sound_run (StopState.sound_start hentry hlife) hrun
  have hstart : (StopState.start cmd started life).left = 7 := by
    simp [StopState.left, StopState.start, hentry, StopState.callerLeft, StopState.waiterLeft]
  exact ⟨by omega, hsound.progress⟩

/-- `GracefulStop` does what the manager of the collectors takes it to do, unless
neither of its signals could be sent. -/
theorem gracefulStop_refines (hentry : StopState.entry cmd started = .signal)
    (hlife : life ≠ .reaped)
    (hrun : run StopState.step moves (.start cmd started life) = some s) {err : Option IOError}
    (hreturned : s.point = .returned err)
    (hsent : ∀ e e', s.sent ≠ [(.interrupt, some e), (.kill, some e')])
    {w w' : ProcessTable} {collector : Cmd} (hothers : w'.others = w.others)
    (hcollectors : w'.collectors = w.collectors.map (Collector.stopped collector s.life))
    (r : (HostOp.gracefulStop collector).Reply) :
    Capture.Perform (.gracefulStop collector) w r w' := by
  have hreaped : s.life = .reaped := by
    have hsound := (StopState.sound_run (StopState.sound_start hentry hlife) hrun).1
    simp only [StopState.Sound, hreturned] at hsound
    cases hsound with
    | inTime hreaped _ => exact hreaped.life
    | killed hreaped _ _ => exact hreaped.life
    | notInterrupted hreaped _ => exact hreaped.life
    | failed _ hfailed => exact absurd hfailed (hsent _ _)
  exact ⟨hothers, s.life, by rw [hreaped]; decide, hcollectors⟩

end Results

def interruptedRun : List StopMove :=
  [.next none, .next none, .exit, .waiter (some "signal: interrupt"), .waiter none, .received]

def interrupted : StopState where
  life := .reaped
  sent := [(.interrupt, none)]
  waits := 1
  point := .returned (some "signal: interrupt")
  waiter := .ended

theorem interruptedRun_eq :
    run StopState.step interruptedRun (.start ⟨false, false⟩ true .running) = some interrupted := by
  decide +kernel

theorem gracefulStop_stops_interrupted : interrupted.Stopped (some "signal: interrupt") :=
  gracefulStop_stops (by decide) (by decide) interruptedRun_eq rfl

/-- A collector that neither leaves on an interrupt nor can be killed. -/
theorem gracefulStop_returns_deaf :
    ∃ moves s, run StopState.step moves (.start ⟨false, false⟩ true .running) = some s ∧
      s.Blocked ∧ moves.countP StopMove.own ≤ 7 := by
  have hrun : run StopState.step [.next none, .next none, .expire, .timeout,
      .next (some "operation not permitted")] (.start ⟨false, false⟩ true .running) =
        some ⟨.running, [(.interrupt, none), (.kill, some "operation not permitted")], 0, .receive,
          .waiting, none, true⟩ := by
    decide +kernel
  exact ⟨_, _, hrun, ⟨rfl, .inr (.inr rfl)⟩,
    (gracefulStop_returns (by decide) (by decide) hrun).1⟩

def fiveCollected : ProcessTable :=
  onlyFive.started ⟨100⟩ 5 2 (Int.natCast_pos.2 (Nat.succ_pos 99)) rfl

theorem gracefulStop_refines_interrupted :
    Capture.Perform (.gracefulStop ⟨100⟩) fiveCollected (.ok ())
      (healthyHost (.gracefulStop ⟨100⟩) fiveCollected).2 := by
  have hothers : (healthyHost (.gracefulStop ⟨100⟩) fiveCollected).2.others =
      fiveCollected.others :=
    rfl
  exact gracefulStop_refines (by decide) (by decide) interruptedRun_eq rfl
    (fun _ _ => by simp [interrupted]) hothers rfl _

end YcAgent.Executils
