import Mathlib.Logic.Function.Basic
import YcAgent.Capture.Post
import YcAgent.Lib.Moves

/-!
The captures that `GoCapture` starts, each in a goroutine of its own that first
waits for the tasks it is given. The goroutines take their turns in any order.
A task is the work of one goroutine; what its `Run` does beside its command is
left open, and so is when the channel of a capture is received from.
-/

namespace YcAgent.Capture

open Lib.Moves

variable {Task : Type}

/-- The fields of a `Capture` that the goroutines read and write. -/
structure CaptureFields where
  cmd : Bool := false
  endpoint : String := ""
  wg : Nat := 0

namespace CaptureFields

def setEndpoint (endpoint : String) (c : CaptureFields) : CaptureFields :=
  { c with endpoint := endpoint }

def initWaitGroup (c : CaptureFields) : CaptureFields :=
  { c with wg := c.wg + 1 }

/-- A counter below zero is a panic. -/
def doneWaitGroup (c : CaptureFields) : Option CaptureFields :=
  match c.wg with
  | 0 => none
  | n + 1 => some { c with wg := n }

end CaptureFields

/-- How far the goroutine of a capture has come. -/
inductive CapturePoint (Task : Type) where
  | idle
  /-- In the loop of `GoCapture`, with these tasks still to wait for. -/
  | loop (rest : List Task)
  /-- In `cap.wg.Wait()` of a task. -/
  | blocked (task : Task) (rest : List Task)
  | endpointSet
  | groupInit
  | run
  /-- At the send of the deferred function. -/
  | deferred (result : Result)
  | sent
  | closed
  | ended

namespace CapturePoint

def begun : CapturePoint Task → Bool
  | idle | loop _ | blocked _ _ | endpointSet | groupInit => false
  | run | deferred _ | sent | closed | ended => true

def returned : CapturePoint Task → Bool
  | idle | loop _ | blocked _ _ | endpointSet | groupInit | run => false
  | deferred _ | sent | closed | ended => true

def counted : CapturePoint Task → Bool
  | groupInit | run | deferred _ | sent | closed => true
  | idle | loop _ | blocked _ _ | endpointSet | ended => false

def pending : CapturePoint Task → List Task
  | loop rest => rest
  | blocked task rest => task :: rest
  | _ => []

theorem pending_of_begun {p : CapturePoint Task} (h : p.begun = true) : p.pending = [] := by
  cases p <;> first | rfl | cases h

/-- Between the start of its `Run` and the last thing it does, a capture is
counted. -/
theorem returned_of_not_counted {p : CapturePoint Task} (hbegun : p.begun = true)
    (hcounted : p.counted = false) : p.returned = true := by
  cases p with
  | run => cases hcounted
  | _ => first | rfl | cases hbegun

end CapturePoint

structure GoArgs (Task : Type) where
  endpoint : String
  wait : List Task

/-- What a goroutine does with its turn. In `Run` it may set the field `Cmd` or
return; elsewhere there is one way on. -/
inductive CaptureTurn where
  | next
  | setCmd (set : Bool)
  | ret (result : Result) (err : Option String)

inductive CaptureMove (Task : Type) where
  | goCapture (task : Task) (args : GoArgs Task)
  | turn (task : Task) (turn : CaptureTurn)

structure Captures (Task : Type) where
  point : Task → CapturePoint Task := fun _ => .idle
  fields : Task → CaptureFields := fun _ => {}
  args : Task → GoArgs Task := fun _ => ⟨"", []⟩
  received : Task → Option Result := fun _ => none

def reported (result : Result) : Option String → Result
  | none => result
  | some err => { result with msg := "capture failed: " ++ err }

namespace Captures

section Moves

variable [DecidableEq Task]

def goto (s : Captures Task) (i : Task) (p : CapturePoint Task) : Captures Task :=
  { s with point := Function.update s.point i p }

def write (s : Captures Task) (i : Task) (c : CaptureFields) : Captures Task :=
  { s with fields := Function.update s.fields i c }

/-- `GoCapture` starts the goroutine of a task that has not been started, to
wait for tasks that have. -/
def goCapture (s : Captures Task) (i : Task) (args : GoArgs Task) : Option (Captures Task) :=
  match s.point i with
  | .idle =>
    if args.wait.all fun t => match s.point t with | .idle => false | _ => true then
      some { s.goto i (.loop args.wait) with args := Function.update s.args i args }
    else none
  | _ => none

/-- The turn of a goroutine in the functions `GoCapture`, `WaitWaitGroup` and
`WrapRun`. -/
def turn (s : Captures Task) (i : Task) (t : CaptureTurn) : Option (Captures Task) :=
  match s.point i, t with
  | .loop (w :: rest), .next =>
    some (s.goto i (if (s.fields w).cmd then .blocked w rest else .loop rest))
  | .blocked w rest, .next => if (s.fields w).wg = 0 then some (s.goto i (.loop rest)) else none
  | .loop [], .next =>
    some ((s.write i ((s.fields i).setEndpoint (s.args i).endpoint)).goto i .endpointSet)
  | .endpointSet, .next => some ((s.write i (s.fields i).initWaitGroup).goto i .groupInit)
  | .groupInit, .next => some (s.goto i .run)
  | .run, .setCmd set => some (s.write i { s.fields i with cmd := set })
  | .run, .ret result err => some (s.goto i (.deferred (reported result err)))
  | .deferred result, .next =>
    some { s.goto i .sent with received := Function.update s.received i (some result) }
  | .sent, .next => some (s.goto i .closed)
  | .closed, .next => (s.fields i).doneWaitGroup.map fun c => (s.write i c).goto i .ended
  | _, _ => none

def move (s : Captures Task) : CaptureMove Task → Option (Captures Task)
  | .goCapture i args => s.goCapture i args
  | .turn i t => s.turn i t

/-- The `Run` of a capture has begun only if those of the tasks it was to wait
for have returned. -/
def Ordered (s : Captures Task) : Prop :=
  ∀ i, (s.point i).begun = true → ∀ w ∈ (s.args i).wait, (s.point w).returned = true

def waitCall (s : Captures Task) : CaptureMove Task → Option Task
  | .goCapture _ _ => none
  | .turn i _ =>
    match s.point i with
    | .loop (w :: _) => some w
    | _ => none

/-- A task on which `WaitWaitGroup` is called has its command by then, or has
returned. -/
def Timely (s : Captures Task) (m : CaptureMove Task) : Prop :=
  ∀ w, s.waitCall m = some w → (s.fields w).cmd = true ∨ (s.point w).returned = true

instance (s : Captures Task) (m : CaptureMove Task) : Decidable (s.Timely m) :=
  inferInstanceAs (Decidable (∀ w ∈ s.waitCall m,
    (s.fields w).cmd = true ∨ (s.point w).returned = true))

end Moves

/-- What a move makes of the point and the fields of the goroutine `i`: it starts,
it goes through the loop of `GoCapture`, or it is past the loop. -/
inductive Turned (s : Captures Task) (i : Task) : CapturePoint Task → CaptureFields → Prop
  | start {wait} (hpoint : s.point i = .idle) : Turned s i (.loop wait) (s.fields i)
  | skip {w rest} (hpoint : s.point i = .loop (w :: rest)) (hcmd : (s.fields w).cmd = false) :
      Turned s i (.loop rest) (s.fields i)
  | block {w rest} (hpoint : s.point i = .loop (w :: rest)) (hcmd : (s.fields w).cmd = true) :
      Turned s i (.blocked w rest) (s.fields i)
  | wake {w rest} (hpoint : s.point i = .blocked w rest) (hwg : (s.fields w).wg = 0) :
      Turned s i (.loop rest) (s.fields i)
  | work {q p c} (hpoint : s.point i = q) (hpending : q.pending = []) (hpending' : p.pending = [])
      (hbegun : q.begun = true → p.begun = true)
      (hreturned : q.returned = true → p.returned = true)
      (hwg : c.wg + q.counted.toNat = (s.fields i).wg + p.counted.toNat)
      (hcmd : c.cmd = true → (s.fields i).cmd = true ∨ p.begun = true) : Turned s i p c

variable {s s' : Captures Task} {i : Task}

/-- The wait group of a task counts the goroutine in it, a command belongs to a
`Run` that has begun, and `cap.wg.Wait()` is called only on such tasks. -/
structure Counted (s : Captures Task) : Prop where
  wg : ∀ i, (s.fields i).wg = (s.point i).counted.toNat
  cmd : ∀ i, (s.fields i).cmd = true → (s.point i).begun = true
  blocked : ∀ i w rest, s.point i = .blocked w rest → (s.point w).begun = true

/-- The tasks a capture was to wait for have returned, apart from those it still
has before it. -/
def Waited (s : Captures Task) : Prop :=
  ∀ i, ∀ w ∈ (s.args i).wait, w ∈ (s.point i).pending ∨ (s.point w).returned = true

theorem counted_start : ({} : Captures Task).Counted :=
  ⟨fun _ => rfl, nofun, nofun⟩

theorem waited_start : ({} : Captures Task).Waited := by
  intro i w hw
  cases hw

theorem Waited.ordered (h : s.Waited) : s.Ordered := by
  intro i hbegun w hw
  have hcase := h i w hw
  rw [CapturePoint.pending_of_begun hbegun] at hcase
  exact hcase.resolve_left List.not_mem_nil

namespace Turned

variable {p : CapturePoint Task} {c : CaptureFields}

theorem begun (h : Turned s i p c) (hbegun : (s.point i).begun = true) : p.begun = true := by
  cases h with
  | start hpoint => simp [hpoint, CapturePoint.begun] at hbegun
  | skip hpoint => simp [hpoint, CapturePoint.begun] at hbegun
  | block hpoint => simp [hpoint, CapturePoint.begun] at hbegun
  | wake hpoint => simp [hpoint, CapturePoint.begun] at hbegun
  | work hpoint _ _ hnext => exact hnext (hpoint ▸ hbegun)

theorem returned (h : Turned s i p c) (hreturned : (s.point i).returned = true) :
    p.returned = true := by
  cases h with
  | start hpoint => simp [hpoint, CapturePoint.returned] at hreturned
  | skip hpoint => simp [hpoint, CapturePoint.returned] at hreturned
  | block hpoint => simp [hpoint, CapturePoint.returned] at hreturned
  | wake hpoint => simp [hpoint, CapturePoint.returned] at hreturned
  | work hpoint _ _ _ hnext => exact hnext (hpoint ▸ hreturned)

theorem wg (h : Turned s i p c) (hs : s.Counted) : c.wg = p.counted.toNat := by
  have hwg := hs.wg i
  cases h with
  | start hpoint => rwa [hpoint] at hwg
  | skip hpoint => rwa [hpoint] at hwg
  | block hpoint => rwa [hpoint] at hwg
  | wake hpoint => rwa [hpoint] at hwg
  | work hpoint _ _ _ _ hnext =>
    rw [hpoint] at hwg
    omega

theorem cmd (h : Turned s i p c) (hs : s.Counted) (hcmd : c.cmd = true) : p.begun = true := by
  have hturned := h
  cases h with
  | start => exact hturned.begun (hs.cmd i hcmd)
  | skip => exact hturned.begun (hs.cmd i hcmd)
  | block => exact hturned.begun (hs.cmd i hcmd)
  | wake => exact hturned.begun (hs.cmd i hcmd)
  | work hpoint _ _ hbegun _ _ hnext =>
    rcases hnext hcmd with hold | hnew
    · exact hbegun (hpoint ▸ hs.cmd i hold)
    · exact hnew

theorem blocked {w : Task} {rest : List Task} (h : Turned s i (.blocked w rest) c)
    (hs : s.Counted) : (s.point w).begun = true := by
  cases h with
  | block _ hcmd => exact hs.cmd w hcmd
  | work _ _ hpending => cases hpending

/-- A goroutine passes a task only if that has returned, if it called
`WaitWaitGroup` in time. -/
theorem pending (h : Turned s i p c) (hs : s.Counted)
    (htimely : ∀ w rest, s.point i = .loop (w :: rest) →
      (s.fields w).cmd = true ∨ (s.point w).returned = true)
    {w : Task} (hw : w ∈ (s.point i).pending) :
    w ∈ p.pending ∨ (s.point w).returned = true := by
  cases h with
  | start hpoint =>
    rw [hpoint] at hw
    cases hw
  | @skip v rest hpoint hcmd =>
    have hreturned := (htimely v rest hpoint).resolve_left (by simp [hcmd])
    rw [hpoint] at hw
    rcases List.mem_cons.1 hw with rfl | hrest
    · exact .inr hreturned
    · exact .inl hrest
  | block hpoint _ =>
    rw [hpoint] at hw
    exact .inl hw
  | @wake v rest hpoint hwg =>
    -- a group that counts nobody, of a task that has begun
    have hcounted : (s.point v).counted = false := by
      rw [hs.wg v] at hwg
      cases hv : (s.point v).counted <;> simp_all
    have hreturned :=
      CapturePoint.returned_of_not_counted (hs.blocked i v rest hpoint) hcounted
    rw [hpoint] at hw
    rcases List.mem_cons.1 hw with rfl | hrest
    · exact .inr hreturned
    · exact .inl hrest
  | work hpoint hpending =>
    rw [hpoint, hpending] at hw
    cases hw

end Turned

variable [DecidableEq Task]

structure Moved (s s' : Captures Task) (i : Task) (p : CapturePoint Task) (c : CaptureFields) :
    Prop where
  turned : Turned s i p c
  point : s'.point = Function.update s.point i p
  fields : s'.fields = Function.update s.fields i c
  wait : ∀ j, ∀ w ∈ (s'.args j).wait, w ∈ (s.args j).wait ∨ j = i ∧ w ∈ p.pending

theorem turn_cases {t : CaptureTurn} (h : s.turn i t = some s') : ∃ p c, Moved s s' i p c := by
  have hsame : s.fields = Function.update s.fields i (s.fields i) :=
    (Function.update_eq_self i s.fields).symm
  unfold turn at h
  split at h
  case h_1 w rest hpoint =>
    cases h
    cases hcmd : (s.fields w).cmd with
    | true => exact ⟨.blocked w rest, _, .block hpoint hcmd, rfl, hsame, fun _ _ => .inl⟩
    | false => exact ⟨.loop rest, _, .skip hpoint hcmd, rfl, hsame, fun _ _ => .inl⟩
  case h_2 w rest hpoint =>
    split at h
    case isTrue hwg =>
      cases h
      exact ⟨.loop rest, _, .wake hpoint hwg, rfl, hsame, fun _ _ => .inl⟩
    case isFalse => cases h
  case h_3 hpoint =>
    cases h
    exact ⟨.endpointSet, (s.fields i).setEndpoint (s.args i).endpoint,
      .work hpoint rfl rfl nofun nofun rfl .inl, rfl, rfl, fun _ _ => .inl⟩
  case h_4 hpoint =>
    cases h
    exact ⟨.groupInit, (s.fields i).initWaitGroup, .work hpoint rfl rfl nofun nofun rfl .inl,
      rfl, rfl, fun _ _ => .inl⟩
  case h_5 hpoint =>
    cases h
    exact ⟨.run, _, .work hpoint rfl rfl nofun nofun rfl .inl, rfl, hsame, fun _ _ => .inl⟩
  case h_6 set hpoint =>
    cases h
    have hstay : s.point = Function.update s.point i .run := by
      rw [← hpoint, Function.update_eq_self]
    exact ⟨.run, { s.fields i with cmd := set },
      .work hpoint rfl rfl id nofun rfl fun _ => .inr rfl,
      hstay, rfl, fun _ _ => .inl⟩
  case h_7 result err hpoint =>
    cases h
    exact ⟨.deferred (reported result err), _, .work hpoint rfl rfl (fun _ => rfl) nofun rfl .inl,
      rfl, hsame, fun _ _ => .inl⟩
  case h_8 result hpoint =>
    cases h
    exact ⟨.sent, _, .work hpoint rfl rfl (fun _ => rfl) (fun _ => rfl) rfl .inl, rfl, hsame,
      fun _ _ => .inl⟩
  case h_9 hpoint =>
    cases h
    exact ⟨.closed, _, .work hpoint rfl rfl (fun _ => rfl) (fun _ => rfl) rfl .inl, rfl, hsame,
      fun _ _ => .inl⟩
  case h_10 hpoint =>
    obtain ⟨c, hdone, rfl⟩ := Option.map_eq_some_iff.1 h
    have hwg : c.wg + 1 = (s.fields i).wg ∧ c.cmd = (s.fields i).cmd := by
      unfold CaptureFields.doneWaitGroup at hdone
      split at hdone
      case h_1 => cases hdone
      case h_2 n hn =>
        cases hdone
        exact ⟨hn.symm, rfl⟩
    exact ⟨.ended, c, .work hpoint rfl rfl (fun _ => rfl) (fun _ => rfl) hwg.1 fun hcmd =>
      .inl (hwg.2 ▸ hcmd), rfl, rfl, fun _ _ => .inl⟩
  case h_11 => cases h

theorem goCapture_cases {args : GoArgs Task} (h : s.goCapture i args = some s') :
    s.point i = .idle ∧ ∃ p c, Moved s s' i p c := by
  unfold goCapture at h
  split at h
  case h_1 hpoint =>
    refine ⟨hpoint, ?_⟩
    split at h
    case isTrue =>
      cases h
      refine ⟨.loop args.wait, s.fields i, .start hpoint, rfl,
        (Function.update_eq_self i s.fields).symm, fun j w hw => ?_⟩
      rcases eq_or_ne j i with rfl | hne
      · simp only [Function.update_self] at hw
        exact .inr ⟨rfl, hw⟩
      · simp only [Function.update_of_ne hne] at hw
        exact .inl hw
    case isFalse => cases h
  case h_2 => cases h

theorem move_cases {m : CaptureMove Task} (h : s.move m = some s') :
    ∃ i p c, Moved s s' i p c ∧
      ∀ w rest, s.point i = .loop (w :: rest) → s.waitCall m = some w := by
  cases m with
  | goCapture i args =>
    obtain ⟨hidle, p, c, hmoved⟩ := goCapture_cases h
    refine ⟨i, p, c, hmoved, fun w rest hloop => ?_⟩
    rw [hidle] at hloop
    cases hloop
  | turn i t =>
    obtain ⟨p, c, hmoved⟩ := turn_cases h
    refine ⟨i, p, c, hmoved, fun w rest hloop => ?_⟩
    rw [waitCall, hloop]

namespace Moved

variable {p : CapturePoint Task} {c : CaptureFields}

private theorem update_keeps {P : CapturePoint Task → Prop} {f : Task → CapturePoint Task}
    (h : P (f i) → P p) (j : Task) (hj : P (f j)) : P (Function.update f i p j) := by
  rcases eq_or_ne j i with rfl | hne
  · rw [Function.update_self]
    exact h hj
  · rw [Function.update_of_ne hne]
    exact hj

theorem begun (h : Moved s s' i p c) (j : Task) (hj : (s.point j).begun = true) :
    (s'.point j).begun = true := by
  rw [h.point]
  exact update_keeps (P := fun q => q.begun = true) h.turned.begun j hj

theorem returned (h : Moved s s' i p c) (j : Task) (hj : (s.point j).returned = true) :
    (s'.point j).returned = true := by
  rw [h.point]
  exact update_keeps (P := fun q => q.returned = true) h.turned.returned j hj

theorem counted (h : Moved s s' i p c) (hs : s.Counted) : s'.Counted := by
  refine ⟨fun j => ?_, fun j => ?_, fun j w rest hj => h.begun w ?_⟩
  · rw [h.point, h.fields]
    rcases eq_or_ne j i with rfl | hne
    · rw [Function.update_self, Function.update_self]
      exact h.turned.wg hs
    · rw [Function.update_of_ne hne, Function.update_of_ne hne]
      exact hs.wg j
  · rw [h.point, h.fields]
    rcases eq_or_ne j i with rfl | hne
    · rw [Function.update_self, Function.update_self]
      exact h.turned.cmd hs
    · rw [Function.update_of_ne hne, Function.update_of_ne hne]
      exact hs.cmd j
  · rw [h.point] at hj
    rcases eq_or_ne j i with rfl | hne
    · rw [Function.update_self] at hj
      subst hj
      exact h.turned.blocked hs
    · rw [Function.update_of_ne hne] at hj
      exact hs.blocked j w rest hj

theorem waited (h : Moved s s' i p c) (hs : s.Counted) (hwaited : s.Waited)
    (htimely : ∀ w rest, s.point i = .loop (w :: rest) →
      (s.fields w).cmd = true ∨ (s.point w).returned = true) : s'.Waited := by
  intro j w hw
  rcases eq_or_ne j i with rfl | hne
  · have hself : s'.point j = p := by rw [h.point, Function.update_self]
    rw [hself]
    rcases h.wait j w hw with hold | ⟨-, hnew⟩
    · rcases hwaited j w hold with hpending | hreturned
      · exact (h.turned.pending hs htimely hpending).imp_right (h.returned w)
      · exact .inr (h.returned w hreturned)
    · exact .inl hnew
  · have hother : s'.point j = s.point j := by rw [h.point, Function.update_of_ne hne]
    have hold := (h.wait j w hw).resolve_right fun hself => hne hself.1
    rw [hother]
    exact (hwaited j w hold).imp_right (h.returned w)

end Moved

theorem move_keeps {m : CaptureMove Task} (hs : s.Counted ∧ s.Waited) (htimely : s.Timely m)
    (hmove : s.move m = some s') : s'.Counted ∧ s'.Waited := by
  obtain ⟨i, p, c, hmoved, hcall⟩ := move_cases hmove
  refine ⟨hmoved.counted hs.1, hmoved.waited hs.1 hs.2 fun w rest hloop => ?_⟩
  exact htimely w (hcall w rest hloop)

/-- If every call of `WaitWaitGroup` finds the command of its task set or its `Run`
at an end, then in every state each `Run` that has begun has those it was to
wait for behind it. -/
theorem ordered_of_timely (moves : List (CaptureMove Task)) (s : Captures Task)
    (htimely : Fits move Timely moves {}) (hrun : run move moves {} = some s) : s.Ordered :=
  (run_keeps (fun _ _ _ => move_keeps) ⟨counted_start, waited_start⟩ htimely hrun).2.ordered

/-- A call of `WaitWaitGroup` that comes earlier, and is the last of its capture,
lets the `Run` of the capture begin before that of the task has returned. -/
theorem begins_early_of_not_timely {w : Task} (hpoint : s.point i = .loop [w]) (hne : w ≠ i)
    (hcmd : (s.fields w).cmd = false) (hreturned : (s.point w).returned = false) :
    ∃ s', run move (List.replicate 4 (.turn i .next)) s = some s' ∧ (s'.point i).begun = true ∧
      (s'.point w).returned = false := by
  simp [List.replicate, run, move, turn, goto, write, hpoint, hcmd, hne, hreturned,
    CapturePoint.begun]

end Captures

inductive FullTask where
  | vmstat
  | dmesg
  deriving DecidableEq

open Captures

/-- The goroutine of `vmstat` starts its command before that of `dmesg` starts. -/
def dmesgWaits : List (CaptureMove FullTask) :=
  [.goCapture .vmstat ⟨"/yc-receiver", []⟩, .turn .vmstat .next, .turn .vmstat .next,
    .turn .vmstat .next, .turn .vmstat (.setCmd true),
    .goCapture .dmesg ⟨"/yc-receiver", [.vmstat]⟩, .turn .dmesg .next,
    .turn .vmstat (.ret ⟨"", true⟩ none), .turn .vmstat .next, .turn .vmstat .next,
    .turn .vmstat .next, .turn .dmesg .next, .turn .dmesg .next, .turn .dmesg .next,
    .turn .dmesg .next]

theorem dmesgWaits_timely : Fits move Timely dmesgWaits {} := by decide +kernel

theorem dmesgWaits_ordered : ∃ s, run move dmesgWaits {} = some s ∧ s.Ordered ∧
    (s.point .dmesg).begun = true :=
  ⟨_, rfl, ordered_of_timely dmesgWaits _ dmesgWaits_timely rfl, rfl⟩

/-- The goroutine of `dmesg` gets its turns before that of `vmstat` has had one. -/
def dmesgEarly : List (CaptureMove FullTask) :=
  [.goCapture .vmstat ⟨"/yc-receiver", []⟩, .goCapture .dmesg ⟨"/yc-receiver", [.vmstat]⟩] ++
    List.replicate 4 (.turn .dmesg .next)

theorem dmesg_runs_before_vmstat : ∃ s, run move dmesgEarly {} = some s ∧
    (s.point .dmesg).begun = true ∧ .vmstat ∈ (s.args .dmesg).wait ∧
    (s.point .vmstat).begun = false ∧ ¬s.Ordered := by
  refine ⟨_, rfl, rfl, .head _, rfl, fun hordered => ?_⟩
  have hreturned := hordered .dmesg rfl .vmstat (.head _)
  cases hreturned

end YcAgent.Capture
