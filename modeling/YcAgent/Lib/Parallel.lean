import Mathlib.Data.Set.Basic
import YcAgent.Lib.Ghost

/-!
Two programs side by side, and programs that keep to permissions. `interleave`
runs two programs in parallel, asking the scheduler before every operation
whose turn it is. A program heeds permissions if each of its operations is
allowed by what the replies so far have granted. Permissions only grow, so two
programs that heed them still do when they are interleaved, and an invariant
that every allowed operation keeps holds throughout a run.
-/

namespace YcAgent.Lib.Program

variable {Op : Type} {Reply : Op → Type} {World R α β γ : Type}

namespace Prog

/-- The operation `op`, with `go` to follow, beside a second program. -/
def beside (turn : Prog Op Reply Bool) (op : Op)
    (go : Reply op → Prog Op Reply β → Prog Op Reply γ) : Prog Op Reply β → Prog Op Reply γ
  | .done b => .act op fun r => go r (.done b)
  | .act op' next' => turn >>= fun first =>
    if first then .act op fun r => go r (.act op' next')
    else .act op' fun r => beside turn op go (next' r)

def interleave (turn : Prog Op Reply Bool) :
    Prog Op Reply α → Prog Op Reply β → Prog Op Reply (α × β)
  | .done a, q => q >>= fun b => .done (a, b)
  | .act op next, q => beside turn op (fun r q' => interleave turn (next r) q') q

section Permissions

variable (allowed : Op → Set R → Prop) (gain : (op : Op) → Reply op → Set R)

/-- What is allowed stays allowed with more permissions. -/
def Grows : Prop := ∀ op held held', held ⊆ held' → allowed op held → allowed op held'

/-- Permissions as a ghost state: every reply may grant some. -/
def permissions : Ghost Op Reply (Set R) where
  allowed held op := allowed op held
  possible _ _ _ := True
  after held op r := held ∪ gain op r

/-- Holding the permissions `held`, the program performs allowed operations
only. -/
abbrev Heeds (p : Prog Op Reply α) (held : Set R) : Prop :=
  p.Follows (permissions allowed gain) held fun _ _ => True

variable {allowed gain}

theorem Heeds.grown {p : Prog Op Reply α} {held : Set R} (h : p.Heeds allowed gain held) :
    p.Follows (permissions allowed gain) held fun _ grown => held ⊆ grown := by
  induction p generalizing held with
  | done a => exact subset_rfl
  | act op next ih =>
    refine ⟨h.1, fun r hr => ?_⟩
    apply (ih r (h.2 r hr)).mono
    intro _ grown hgrown
    exact Set.subset_union_left.trans hgrown

theorem Heeds.more (hallowed : Grows allowed) {p : Prog Op Reply α} {held held' : Set R}
    (h : p.Heeds allowed gain held) (hsub : held ⊆ held') : p.Heeds allowed gain held' := by
  induction p generalizing held held' with
  | done a => trivial
  | act op next ih =>
    refine ⟨hallowed op _ _ hsub h.1, fun r hr => ?_⟩
    exact ih r (h.2 r hr) (Set.union_subset_union_left _ hsub)

theorem Heeds.bind {p : Prog Op Reply α} {k : α → Prog Op Reply β} {held : Set R}
    (hp : p.Heeds allowed gain held)
    (hk : ∀ a grown, held ⊆ grown → (k a).Heeds allowed gain grown) :
    (p >>= k).Heeds allowed gain held := by
  rw [Heeds, follows_bind]
  exact hp.grown.mono hk

/-- The rule of a loop: each round heeds the permissions held so far. -/
theorem heeds_foldlM {f : β → γ → Prog Op Reply β}
    (hround : ∀ b x held, (f b x).Heeds allowed gain held) (xs : List γ) (b : β)
    (held : Set R) : (xs.foldlM f b).Heeds allowed gain held := by
  induction xs generalizing b held with
  | nil => trivial
  | cons x xs ih =>
    rw [List.foldlM_cons]
    exact (hround b x held).bind fun b' grown _ => ih b' grown

private theorem heeds_beside (hallowed : Grows allowed) {turn : Prog Op Reply Bool}
    (hturn : ∀ held, turn.Heeds allowed gain held) {op : Op}
    {go : Reply op → Prog Op Reply β → Prog Op Reply γ} {q : Prog Op Reply β} {held : Set R}
    (hop : allowed op held) (hq : q.Heeds allowed gain held)
    (hgo : ∀ r q' grown, held ⊆ grown → q'.Heeds allowed gain grown →
      (go r q').Heeds allowed gain (grown ∪ gain op r)) :
    (beside turn op go q).Heeds allowed gain held := by
  induction q generalizing held with
  | done b => exact ⟨hop, fun r _ => hgo r (.done b) held subset_rfl trivial⟩
  | act op' next' ih =>
    apply (hturn held).bind
    intro first grown hgrown
    have hq' : (act op' next').Heeds allowed gain grown := hq.more hallowed hgrown
    cases first with
    | true => exact ⟨hallowed op _ _ hgrown hop, fun r _ => hgo r _ grown hgrown hq'⟩
    | false =>
      refine ⟨hq'.1, fun r hr => ?_⟩
      have hmore : held ⊆ grown ∪ gain op' r := hgrown.trans Set.subset_union_left
      apply ih r (hallowed op _ _ hmore hop) (hq'.2 r hr)
      intro r' q' grown' hgrown'
      exact hgo r' q' grown' (hmore.trans hgrown')

theorem heeds_interleave (hallowed : Grows allowed) {turn : Prog Op Reply Bool}
    (hturn : ∀ held, turn.Heeds allowed gain held) {p : Prog Op Reply α}
    {q : Prog Op Reply β} {held : Set R} (hp : p.Heeds allowed gain held)
    (hq : q.Heeds allowed gain held) : (interleave turn p q).Heeds allowed gain held := by
  induction p generalizing q held with
  | done a => exact hq.bind fun _ _ _ => trivial
  | act op next ih =>
    apply heeds_beside hallowed hturn hp.1 hq
    intro r q' grown hgrown hq'
    apply ih r
    · exact Heeds.more hallowed (hp.2 r trivial) (Set.union_subset_union_left _ hgrown)
    · exact hq'.more hallowed Set.subset_union_left

end Permissions

end Prog

section Runs

variable {perform : (op : Op) → World → Reply op → World → Prop}
variable {allowed : Op → Set R → Prop} (gain : (op : Op) → Reply op → Set R)

/-- The permissions the operations of a trace were granted. -/
def gained (trace : Trace Op Reply World) : Set R :=
  { x | ∃ e ∈ trace, x ∈ gain e.op e.reply }

@[simp] theorem gained_nil : gained gain ([] : Trace Op Reply World) = ∅ := by
  simp [gained]

theorem gained_cons (e : Event Op Reply World) (trace : Trace Op Reply World) :
    gained gain (e :: trace) = gain e.op e.reply ∪ gained gain trace := by
  ext x
  simp [gained]

theorem gained_append (trace more : Trace Op Reply World) :
    gained gain (trace ++ more) = gained gain trace ∪ gained gain more := by
  induction trace with
  | nil => simp
  | cons e trace ih => rw [List.cons_append, gained_cons, gained_cons, ih, Set.union_assoc]

theorem afterAll_permissions (held : Set R) (trace : Trace Op Reply World) :
    (Prog.permissions allowed gain).afterAll held trace = held ∪ gained gain trace := by
  induction trace generalizing held with
  | nil => simp [Ghost.afterAll]
  | cons e trace ih =>
    rw [gained_cons, ← Set.union_assoc]
    exact ih (held ∪ gain e.op e.reply)

variable {gain} {p : Prog Op Reply α} {held : Set R} {w w' : World}
variable {trace : Trace Op Reply World} {a : α}

/-- What every allowed operation keeps holds at the end of a run, with all the
permissions it was granted. -/
theorem Runs.of_heeds (inv : Set R → World → Prop)
    (hstep : ∀ op held w r w', allowed op held → perform op w r w' → inv held w →
      inv (held ∪ gain op r) w')
    (hp : p.Heeds allowed gain held) (hrun : Runs perform p w trace a w')
    (hinv : inv held w) : inv (held ∪ gained gain trace) w' := by
  have hview : (Prog.permissions allowed gain).Describes (.alone perform)
      fun w held => inv held w :=
    ⟨fun op w r w' held hop h hperform => ⟨trivial, hstep op held w r w' hop hperform h⟩,
      fun _ _ _ _ hnever => hnever.elim⟩
  have hend := (Steps.of_follows hview hp hinv hrun).2.1
  rwa [afterAll_permissions] at hend

/-- A run performs only operations that some permissions allow. -/
theorem Runs.ops_allowed (hp : p.Heeds allowed gain held) (hrun : Runs perform p w trace a w') :
    ∀ e ∈ trace, ∃ held, allowed e.op held := by
  have hview : (Prog.permissions allowed gain).Describes (.alone perform)
      fun _ _ => True :=
    ⟨fun _ _ _ _ _ _ _ _ => ⟨trivial, trivial⟩, fun _ _ _ _ _ => trivial⟩
  intro e he
  obtain ⟨before, rest, rfl⟩ := List.append_of_mem he
  exact ⟨_, ((Steps.of_follows hview hp trivial hrun).1 before e rest rfl).1⟩

end Runs

end YcAgent.Lib.Program
