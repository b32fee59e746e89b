import Mathlib.Algebra.Order.BigOperators.Group.List
import YcAgent.Capture.CaptureOrder
import YcAgent.Lib.Ghost

/-!
A program that starts captures with `GoCapture` and receives their results. The
channel of a capture has no buffer: its goroutine is held at the send until the
program receives, and the program at the receive until the goroutine sends. A
task that another capture waits for is let go only after its result has been
received, so the order of the receives decides whether anything gets stuck.
`Joins` is a discipline of the program alone; a program that keeps it comes to
an end in every schedule, with all goroutines it has started.
-/

namespace YcAgent.Capture

open Lib.Program

variable {Op : Type} {Reply : Op → Type} {Task α : Type}

/-- What an operation of the program is to the captures. -/
inductive CaptureCall (Task : Type) where
  | other
  /-- An operation for which the captures have to be over. -/
  | barrier
  | go (task : Task) (args : GoArgs Task)
  | receive (task : Task)

/-- The captures a program has started, with the tasks each of them waits for,
and those it has received the results of. -/
structure Joins (Task : Type) where
  started : List (Task × List Task) := []
  received : List Task := []

namespace Joins

def Over (g : Joins Task) : Prop := ∀ e ∈ g.started, e.1 ∈ g.received

/-- Every task is started once, to wait for tasks started before, and received
from once, after the tasks it waits for. -/
def Allowed (g : Joins Task) : CaptureCall Task → Prop
  | .other => True
  | .barrier => g.Over
  | .go task args => task ∉ g.started.map Prod.fst ∧ ∀ w ∈ args.wait, w ∈ g.started.map Prod.fst
  | .receive task => task ∉ g.received ∧
      ∃ wait, (task, wait) ∈ g.started ∧ ∀ w ∈ wait, w ∈ g.received

def after (g : Joins Task) : CaptureCall Task → Joins Task
  | .other | .barrier => g
  | .go task args => { g with started := (task, args.wait) :: g.started }
  | .receive task => { g with received := task :: g.received }

def ghost (call : Op → CaptureCall Task) : Ghost Op Reply (Joins Task) where
  allowed g op := g.Allowed (call op)
  possible _ _ _ := True
  after g op _ := g.after (call op)

end Joins

/-- How the operations of a program act on the captures, and the reply that a
received result is to it. -/
structure Caller (Op : Type) (Reply : Op → Type) (Task : Type) where
  call : Op → CaptureCall Task
  delivers : (op : Op) → Result → Reply op → Prop
  delivers_total : ∀ op task result, call op = .receive task → ∃ r, delivers op result r

structure Session (Op : Type) (Reply : Op → Type) (Task α : Type) where
  main : Prog Op Reply α
  captures : Captures Task := {}

namespace CapturePoint

def delivered : CapturePoint Task → Bool
  | sent | closed | ended => true
  | _ => false

def shut : CapturePoint Task → Bool
  | closed | ended => true
  | _ => false

theorem delivered_of_shut {p : CapturePoint Task} (h : p.shut = true) : p.delivered = true := by
  cases p <;> first | rfl | cases h

/-- The turns that are left to a goroutine, those inside its `Run` apart. -/
def left : CapturePoint Task → Nat
  | loop rest => 2 * rest.length + 7
  | blocked _ rest => 2 * rest.length + 8
  | endpointSet => 6
  | groupInit => 5
  | run => 4
  | deferred _ => 3
  | sent => 2
  | closed => 1
  | idle | ended => 0

end CapturePoint

namespace Captures

variable [DecidableEq Task]

/-- A turn of the goroutine `i` takes it to the point `p`, which is nearer to its
end unless the turn is one inside its `Run`. -/
structure Advanced (s s' : Captures Task) (i : Task) (t : CaptureTurn) (p : CapturePoint Task) :
    Prop where
  point : s'.point = Function.update s.point i p
  awake : s.point i ≠ .idle ∧ p ≠ .idle
  pending : p.pending ⊆ (s.point i).pending
  left : p.left < (s.point i).left ∨ ∃ set, t = .setCmd set
  delivered : p.delivered = true ↔
    (s.point i).delivered = true ∨ ∃ result, s.point i = .deferred result

variable {s s' : Captures Task} {i : Task} {t : CaptureTurn}

private theorem advanced_of {q p : CapturePoint Task} (hpoint : s.point i = q)
    (hnext : s'.point = Function.update s.point i p)
    (hawake : q ≠ .idle ∧ p ≠ .idle) (hpending : p.pending ⊆ q.pending)
    (hleft : p.left < q.left ∨ ∃ set, t = .setCmd set)
    (hdelivered : p.delivered = true ↔ q.delivered = true ∨ ∃ result, q = .deferred result) :
    ∃ p, Advanced s s' i t p := by
  subst hpoint
  exact ⟨p, hnext, hawake, hpending, hleft, hdelivered⟩

theorem turn_advances (h : s.turn i t = some s') : ∃ p, Advanced s s' i t p := by
  unfold turn at h
  split at h
  case h_1 w rest hpoint =>
    cases h
    have hloop : (CapturePoint.loop rest).left < (CapturePoint.loop (w :: rest)).left := by
      simp [CapturePoint.left]
    have hblocked : (CapturePoint.blocked w rest).left < (CapturePoint.loop (w :: rest)).left := by
      simp only [CapturePoint.left, List.length_cons]
      omega
    cases (s.fields w).cmd with
    | true =>
      exact advanced_of (p := .blocked w rest) hpoint rfl (by simp) (fun _ => id)
        (.inl hblocked) (by simp [CapturePoint.delivered])
    | false =>
      exact advanced_of (p := .loop rest) hpoint rfl (by simp)
        (fun _ => List.mem_cons_of_mem w) (.inl hloop) (by simp [CapturePoint.delivered])
  case h_2 w rest hpoint =>
    split at h
    case isTrue =>
      cases h
      exact advanced_of hpoint rfl (by simp) (fun _ => List.mem_cons_of_mem w)
        (.inl (by simp [CapturePoint.left])) (by simp [CapturePoint.delivered])
    case isFalse => cases h
  case h_6 set hpoint =>
    cases h
    have hstay : s.point = Function.update s.point i .run := by
      rw [← hpoint, Function.update_eq_self]
    exact advanced_of hpoint hstay (by simp) (fun _ => id) (.inr ⟨set, rfl⟩)
      (by simp [CapturePoint.delivered])
  case h_10 hpoint =>
    obtain ⟨c, -, rfl⟩ := Option.map_eq_some_iff.1 h
    exact advanced_of hpoint rfl (by simp) (fun _ => id) (.inl (by simp [CapturePoint.left]))
      (by simp [CapturePoint.delivered])
  case h_11 => cases h
  all_goals
    next hpoint =>
      cases h
      exact advanced_of hpoint rfl (by simp) (fun _ => id) (.inl (by simp [CapturePoint.left]))
        (by simp [CapturePoint.delivered])

/-- The goroutine is over, held at its send or held by a task that is not over. -/
inductive Held (s : Captures Task) (i : Task) : Prop
  | idle (hpoint : s.point i = .idle)
  | ended (hpoint : s.point i = .ended)
  | deferred {result} (hpoint : s.point i = .deferred result)
  | blocked {w rest} (hpoint : s.point i = .blocked w rest) (hw : (s.point w).counted = true)

theorem exists_turn (hs : s.Counted) (hheld : ¬s.Held i) :
    ∃ t, (∀ set, t ≠ .setCmd set) ∧ ∃ s', s.turn i t = some s' := by
  have hnext (set : Bool) : CaptureTurn.next ≠ .setCmd set := CaptureTurn.noConfusion
  cases hpoint : s.point i with
  | idle => exact absurd (.idle hpoint) hheld
  | ended => exact absurd (.ended hpoint) hheld
  | deferred result => exact absurd (.deferred hpoint) hheld
  | run => exact ⟨.ret ⟨"", false⟩ none, fun _ => CaptureTurn.noConfusion, by simp [turn, hpoint]⟩
  | blocked w rest =>
    have hwg : (s.fields w).wg = 0 := by
      have hfree : (s.point w).counted = false :=
        Bool.eq_false_iff.2 fun hw => hheld (.blocked hpoint hw)
      rw [hs.wg w, hfree]
      rfl
    exact ⟨.next, hnext, by simp [turn, hpoint, hwg]⟩
  | closed =>
    have hwg : (s.fields i).wg = 1 := by
      rw [hs.wg i, hpoint]
      rfl
    exact ⟨.next, hnext, by simp [turn, hpoint, CaptureFields.doneWaitGroup, hwg]⟩
  | loop rest => cases rest <;> exact ⟨.next, hnext, by simp [turn, hpoint]⟩
  | endpointSet | groupInit | sent => exact ⟨.next, hnext, by simp [turn, hpoint]⟩

theorem goCapture_point {args : GoArgs Task} (h : s.goCapture i args = some s') :
    s'.point = Function.update s.point i (.loop args.wait) := by
  unfold goCapture at h
  split at h
  · split at h
    · cases h
      rfl
    · cases h
  · cases h

theorem exists_goCapture {args : GoArgs Task} (hidle : s.point i = .idle)
    (hwait : ∀ w ∈ args.wait, s.point w ≠ .idle) : ∃ s', s.goCapture i args = some s' := by
  simp only [goCapture, hidle]
  refine ⟨_, if_pos ?_⟩
  rw [List.all_eq_true]
  intro w hw
  cases hpoint : s.point w with
  | idle => exact absurd hpoint (hwait w hw)
  | _ => rfl

end Captures

namespace Session

variable [DecidableEq Task] (caller : Caller Op Reply Task)

/-- A step of the program or of a goroutine. The send of a goroutine is a step
of both; a closed channel is received from at once, and one that was never
made not at all. -/
inductive Step (s : Session Op Reply Task α) : Session Op Reply Task α → Prop
  | other {op next} (r : Reply op) (hmain : s.main = .act op next)
      (hcall : caller.call op = .other ∨ caller.call op = .barrier) : Step s ⟨next r, s.captures⟩
  | go {op next task args captures} (r : Reply op) (hmain : s.main = .act op next)
      (hcall : caller.call op = .go task args)
      (hgo : s.captures.goCapture task args = some captures) : Step s ⟨next r, captures⟩
  | receive {op next task result captures r} (hmain : s.main = .act op next)
      (hcall : caller.call op = .receive task)
      (hpoint : s.captures.point task = .deferred result)
      (hturn : s.captures.turn task .next = some captures)
      (hreply : caller.delivers op result r) : Step s ⟨next r, captures⟩
  | receiveShut {op next task r} (hmain : s.main = .act op next)
      (hcall : caller.call op = .receive task)
      (hshut : (s.captures.point task).shut = true)
      (hreply : caller.delivers op ⟨"", false⟩ r) : Step s ⟨next r, s.captures⟩
  | turn {task t captures} (hpoint : ∀ result, s.captures.point task ≠ .deferred result)
      (hquiet : ∀ set, t ≠ .setCmd set) (hturn : s.captures.turn task t = some captures) :
      Step s ⟨s.main, captures⟩

/-- The states a session can come to. Apart from the steps, a `Run` may set its command
or take it back, as often as it likes. -/
inductive Reaches (s : Session Op Reply Task α) : Session Op Reply Task α → Prop
  | refl : Reaches s s
  | step {s₁ s₂} (hreaches : Reaches s s₁) (hstep : Step caller s₁ s₂) : Reaches s s₂
  | work {s₁ task set captures} (hreaches : Reaches s s₁)
      (hturn : s₁.captures.turn task (.setCmd set) = some captures) : Reaches s ⟨s₁.main, captures⟩

def Finished (s : Session Op Reply Task α) : Prop :=
  (∃ a, s.main = .done a) ∧ ∀ i, s.captures.point i = .idle ∨ s.captures.point i = .ended

/-- What the program has done is where the goroutines are, and what it has left
to do keeps the discipline. -/
structure Sound (s : Session Op Reply Task α) (g : Joins Task) : Prop where
  follows : s.main.Follows (Joins.ghost caller.call) g fun _ g' => g'.Over
  counted : s.captures.Counted
  started : ∀ i, s.captures.point i ≠ .idle ↔ i ∈ g.started.map Prod.fst
  pending : ∀ i wait, (i, wait) ∈ g.started → (s.captures.point i).pending ⊆ wait
  received : ∀ i, (s.captures.point i).delivered = true ↔ i ∈ g.received

variable {caller} {s s' : Session Op Reply Task α} {g : Joins Task}

omit [DecidableEq Task] in
theorem sound_start {main : Prog Op Reply α}
    (hmain : main.Follows (Joins.ghost caller.call) {} fun _ g => g.Over) :
    Sound caller ⟨main, {}⟩ {} where
  follows := hmain
  counted := Captures.counted_start
  started i := by simp
  pending i wait h := by cases h
  received i := by simp [CapturePoint.delivered]

omit [DecidableEq Task] in
/-- The next operation of the program, and the program after it, keep the
discipline. -/
theorem Sound.at_act (h : Sound caller s g) {op : Op} {next : Reply op → Prog Op Reply α}
    {call : CaptureCall Task} (hmain : s.main = .act op next) (hcall : caller.call op = call) :
    g.Allowed call ∧
      ∀ r, (next r).Follows (Joins.ghost caller.call) (g.after call) fun _ g' => g'.Over := by
  have hfollows := h.follows
  rw [hmain] at hfollows
  subst hcall
  exact ⟨hfollows.1, fun r => hfollows.2 r trivial⟩

/-- A turn, and what it is to the program: the delivery of a result if the
goroutine stood at its send. -/
theorem Sound.advance (h : Sound caller s g) {main : Prog Op Reply α} {g' : Joins Task}
    {task : Task} {t : CaptureTurn} {captures : Captures Task}
    (hturn : s.captures.turn task t = some captures)
    (hfollows : main.Follows (Joins.ghost caller.call) g' fun _ g' => g'.Over)
    (hstarted : g'.started = g.started)
    (hreceived : ∀ i, i ∈ g'.received ↔
      i ∈ g.received ∨ i = task ∧ ∃ result, s.captures.point task = .deferred result) :
    Sound caller ⟨main, captures⟩ g' := by
  obtain ⟨p, hadvanced⟩ := Captures.turn_advances hturn
  obtain ⟨_, _, hmoved⟩ := Captures.turn_cases hturn
  refine ⟨hfollows, hmoved.counted h.counted, fun i => ?_, fun i wait hi => ?_, fun i => ?_⟩
  all_goals
    rw [hadvanced.point]
    rcases eq_or_ne i task with rfl | hne
  · rw [Function.update_self, hstarted, ← h.started i]
    exact iff_of_true hadvanced.awake.2 hadvanced.awake.1
  · rw [Function.update_of_ne hne, hstarted, h.started i]
  · rw [Function.update_self]
    exact fun w hw => h.pending i wait (hstarted ▸ hi) (hadvanced.pending hw)
  · rw [Function.update_of_ne hne]
    exact h.pending i wait (hstarted ▸ hi)
  · rw [Function.update_self, hadvanced.delivered, hreceived i, h.received i]
    simp
  · rw [Function.update_of_ne hne, hreceived i, h.received i]
    simp [hne]

theorem Sound.turn (h : Sound caller s g) {task : Task} {t : CaptureTurn}
    {captures : Captures Task} (hpoint : ∀ result, s.captures.point task ≠ .deferred result)
    (hturn : s.captures.turn task t = some captures) : Sound caller ⟨s.main, captures⟩ g :=
  h.advance hturn h.follows rfl (by simp [hpoint])

theorem Sound.go (h : Sound caller s g) {op : Op} {next : Reply op → Prog Op Reply α}
    {task : Task} {args : GoArgs Task} {captures : Captures Task} (r : Reply op)
    (hmain : s.main = .act op next) (hcall : caller.call op = .go task args)
    (hgo : s.captures.goCapture task args = some captures) :
    Sound caller ⟨next r, captures⟩ { g with started := (task, args.wait) :: g.started } := by
  obtain ⟨hidle, p, c, hmoved⟩ := Captures.goCapture_cases hgo
  have hpoint : captures.point = Function.update s.captures.point task (.loop args.wait) :=
    Captures.goCapture_point hgo
  have hfresh : task ∉ g.started.map Prod.fst := fun hmem => (h.started task).2 hmem hidle
  refine ⟨(h.at_act hmain hcall).2 r, hmoved.counted h.counted, fun i => ?_, fun i wait hi => ?_,
    fun i => ?_⟩
  all_goals
    rw [hpoint]
    rcases eq_or_ne i task with rfl | hne
  · simp
  · rw [Function.update_of_ne hne, h.started i]
    simp [hne]
  · rw [Function.update_self]
    rcases List.mem_cons.1 hi with heq | hold
    · cases heq
      exact fun w => id
    · exact absurd (List.mem_map_of_mem hold) hfresh
  · rw [Function.update_of_ne hne]
    rcases List.mem_cons.1 hi with heq | hold
    · cases heq
      exact absurd rfl hne
    · exact h.pending i wait hold
  · rw [Function.update_self, ← h.received i, hidle]
    exact Iff.rfl
  · rw [Function.update_of_ne hne, h.received i]

theorem Sound.receive (h : Sound caller s g) {op : Op} {next : Reply op → Prog Op Reply α}
    {task : Task} {result : Result} {captures : Captures Task} (r : Reply op)
    (hmain : s.main = .act op next) (hcall : caller.call op = .receive task)
    (hpoint : s.captures.point task = .deferred result)
    (hturn : s.captures.turn task .next = some captures) :
    Sound caller ⟨next r, captures⟩ { g with received := task :: g.received } :=
  h.advance hturn ((h.at_act hmain hcall).2 r) rfl (by simp [hpoint, or_comm])

omit [DecidableEq Task] in
theorem Sound.not_shut (h : Sound caller s g) {op : Op} {next : Reply op → Prog Op Reply α}
    {task : Task} (hmain : s.main = .act op next) (hcall : caller.call op = .receive task) :
    (s.captures.point task).delivered = false := by
  rw [← Bool.not_eq_true, h.received task]
  exact (h.at_act hmain hcall).1.1

theorem Sound.step (h : Sound caller s g) (hstep : Step caller s s') :
    ∃ g', Sound caller s' g' := by
  cases hstep with
  | @other op next r hmain hcall =>
    refine ⟨g, ?_, h.counted, h.started, h.pending, h.received⟩
    rcases hcall with hcall | hcall
    all_goals exact (h.at_act hmain hcall).2 r
  | go r hmain hcall hgo => exact ⟨_, h.go r hmain hcall hgo⟩
  | receive hmain hcall hpoint hturn _ => exact ⟨_, h.receive _ hmain hcall hpoint hturn⟩
  | receiveShut hmain hcall hshut _ =>
    have hopen := h.not_shut hmain hcall
    rw [CapturePoint.delivered_of_shut hshut] at hopen
    cases hopen
  | turn hpoint _ hturn => exact ⟨g, h.turn hpoint hturn⟩

theorem Reaches.sound (h : Sound caller s g) (hreaches : Reaches caller s s') :
    ∃ g', Sound caller s' g' := by
  induction hreaches with
  | refl => exact ⟨g, h⟩
  | step _ hstep ih =>
    obtain ⟨g', hsound⟩ := ih
    exact hsound.step hstep
  | work _ hturn ih =>
    obtain ⟨g', hsound⟩ := ih
    refine ⟨g', hsound.turn (fun result hpoint => ?_) hturn⟩
    simp [Captures.turn, hpoint] at hturn

/-- Where every goroutine is held, the program has a step or has returned. -/
theorem Sound.main_steps [∀ op, Nonempty (Reply op)] (h : Sound caller s g)
    (hheld : ∀ i, s.captures.Held i) :
    Finished s ∨ ∃ s', Step caller s s' := by
  cases hmain : s.main with
  | done a =>
    have hover : g.Over := by
      have hfollows := h.follows
      rw [hmain] at hfollows
      exact hfollows
    refine .inl ⟨⟨a, hmain⟩, fun i => ?_⟩
    by_cases hidle : s.captures.point i = .idle
    · exact .inl hidle
    · obtain ⟨e, he, rfl⟩ := List.mem_map.1 ((h.started i).1 hidle)
      have hdelivered := (h.received e.1).2 (hover e he)
      cases hheld e.1 with
      | idle hpoint => exact .inl hpoint
      | ended hpoint => exact .inr hpoint
      | deferred hpoint => simp [hpoint, CapturePoint.delivered] at hdelivered
      | blocked hpoint _ => simp [hpoint, CapturePoint.delivered] at hdelivered
  | act op next =>
    obtain ⟨r⟩ := ‹∀ op, Nonempty (Reply op)› op
    refine .inr ?_
    cases hcall : caller.call op with
    | other => exact ⟨_, .other r hmain (.inl hcall)⟩
    | barrier => exact ⟨_, .other r hmain (.inr hcall)⟩
    | go task args =>
      have hallowed := (h.at_act hmain hcall).1
      obtain ⟨captures, hgo⟩ : ∃ captures, s.captures.goCapture task args = some captures := by
        apply Captures.exists_goCapture
        · by_contra hpoint
          exact hallowed.1 ((h.started task).1 hpoint)
        · exact fun w hw => (h.started w).2 (hallowed.2 w hw)
      exact ⟨_, .go r hmain hcall hgo⟩
    | receive task =>
      have hopen := h.not_shut hmain hcall
      obtain ⟨-, wait, hstarted, hwait⟩ := (h.at_act hmain hcall).1
      cases hheld task with
      | idle hpoint => exact absurd hpoint ((h.started task).2 (List.mem_map_of_mem hstarted))
      | ended hpoint => simp [hpoint, CapturePoint.delivered] at hopen
      | @deferred result hpoint =>
        obtain ⟨captures, hturn⟩ : ∃ captures, s.captures.turn task .next = some captures := by
          simp [Captures.turn, hpoint]
        obtain ⟨reply, hreply⟩ := caller.delivers_total op task result hcall
        exact ⟨_, .receive hmain hcall hpoint hturn hreply⟩
      | @blocked w rest hpoint hcounted =>
        -- the task it is held by has been received from, so it is over
        have hpending : w ∈ (s.captures.point task).pending := by
          rw [hpoint]
          exact List.mem_cons_self
        have hreceived := hwait w (h.pending task wait hstarted hpending)
        have hdelivered := (h.received w).2 hreceived
        cases hheld w with
        | ended hw => simp [hw, CapturePoint.counted] at hcounted
        | idle hw => simp [hw, CapturePoint.delivered] at hdelivered
        | deferred hw => simp [hw, CapturePoint.delivered] at hdelivered
        | blocked hw _ => simp [hw, CapturePoint.delivered] at hdelivered

theorem Sound.progress [∀ op, Nonempty (Reply op)] (h : Sound caller s g) :
    Finished s ∨ ∃ s', Step caller s s' := by
  by_cases hheld : ∀ i, s.captures.Held i
  · exact h.main_steps hheld
  · obtain ⟨i, hfree⟩ := not_forall.1 hheld
    obtain ⟨t, hquiet, captures, hturn⟩ := Captures.exists_turn h.counted hfree
    exact .inr ⟨_, .turn (fun result hpoint => hfree (.deferred hpoint)) hquiet hturn⟩

def rank (captures : Captures Task) (g : Joins Task) : Nat :=
  (g.started.map fun e => (captures.point e.1).left).sum

theorem Sound.rank_turn (h : Sound caller s g) {task : Task} {t : CaptureTurn}
    {captures : Captures Task} (hquiet : ∀ set, t ≠ .setCmd set)
    (hturn : s.captures.turn task t = some captures) : rank captures g < rank s.captures g := by
  obtain ⟨p, hadvanced⟩ := Captures.turn_advances hturn
  have hleft : p.left < (s.captures.point task).left := by
    rcases hadvanced.left with hlt | ⟨set, hset⟩
    · exact hlt
    · exact absurd hset (hquiet set)
  obtain ⟨e, he, rfl⟩ := List.mem_map.1 ((h.started task).1 hadvanced.awake.1)
  apply List.sum_lt_sum
  · intro e' _
    rw [hadvanced.point]
    rcases eq_or_ne e'.1 e.1 with heq | hne
    · rw [heq, Function.update_self]
      exact hleft.le
    · rw [Function.update_of_ne hne]
  · refine ⟨e, he, ?_⟩
    rw [hadvanced.point, Function.update_self]
    exact hleft

/-- If no run goes on for ever after the next operation of the program, then none
does before it: until then the goroutines only use up their turns. -/
theorem acc_of_main {main : Prog Op Reply α}
    (hnext : ∀ op next, main = .act op next → ∀ r captures g,
      Sound caller ⟨next r, captures⟩ g →
        Acc (fun after before => Step caller before after) ⟨next r, captures⟩)
    {captures : Captures Task} (h : Sound caller ⟨main, captures⟩ g) :
    Acc (fun after before => Step caller before after) ⟨main, captures⟩ := by
  induction hrank : rank captures g using Nat.strongRecOn generalizing captures with
  | ind n ih =>
    refine ⟨_, fun s' hstep => ?_⟩
    obtain ⟨g', hsound⟩ := h.step hstep
    cases hstep with
    | other r hmain hcall => exact hnext _ _ hmain r _ _ hsound
    | go r hmain hcall hgo => exact hnext _ _ hmain r _ _ hsound
    | receive hmain hcall hpoint hturn hreply => exact hnext _ _ hmain _ _ _ hsound
    | receiveShut hmain hcall hshut hreply => exact hnext _ _ hmain _ _ _ hsound
    | turn hpoint hquiet hturn =>
      have hlt : rank _ g < rank captures g := h.rank_turn hquiet hturn
      exact ih _ (by omega) (h.turn hpoint hturn) rfl

theorem Sound.acc {main : Prog Op Reply α} {captures : Captures Task}
    (h : Sound caller ⟨main, captures⟩ g) :
    Acc (fun after before => Step caller before after) ⟨main, captures⟩ := by
  induction main generalizing captures g with
  | done a => exact acc_of_main nofun h
  | act op next ih =>
    refine acc_of_main (fun op' next' heq r captures' g' h' => ?_) h
    cases heq
    exact ih r h'

/-- The program has returned and all goroutines have ended, or there is a step other
than one inside a `Run`; and no run goes on for ever with such steps. -/
def Ends (caller : Caller Op Reply Task) (s : Session Op Reply Task α) : Prop :=
  (Finished s ∨ ∃ s', Step caller s s') ∧ Acc (fun after before => Step caller before after) s

/-- This is so in every state that a program with the discipline can come to. -/
theorem joined_ends [∀ op, Nonempty (Reply op)] {main : Prog Op Reply α}
    (hmain : main.Follows (Joins.ghost caller.call) {} fun _ g => g.Over)
    (hreaches : Reaches caller ⟨main, {}⟩ s) : Ends caller s := by
  obtain ⟨g, hsound⟩ := hreaches.sound (sound_start hmain)
  exact ⟨hsound.progress, hsound.acc⟩

/-- At a barrier, every goroutine that has been started has delivered its
result. -/
theorem delivered_at_barrier {main : Prog Op Reply α}
    (hmain : main.Follows (Joins.ghost caller.call) {} fun _ g => g.Over)
    (hreaches : Reaches caller ⟨main, {}⟩ s) {op : Op} {next : Reply op → Prog Op Reply α}
    (hat : s.main = .act op next) (hcall : caller.call op = .barrier) (i : Task) :
    s.captures.point i = .idle ∨ (s.captures.point i).delivered = true := by
  obtain ⟨g, hsound⟩ := hreaches.sound (sound_start hmain)
  have hover : g.Over := (hsound.at_act hat hcall).1
  by_cases hidle : s.captures.point i = .idle
  · exact .inl hidle
  · obtain ⟨e, he, rfl⟩ := List.mem_map.1 ((hsound.started i).1 hidle)
    exact .inr ((hsound.received e.1).2 (hover e he))

end Session

end YcAgent.Capture
