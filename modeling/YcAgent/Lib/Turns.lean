import Mathlib.Data.DFinsupp.WellFounded
import YcAgent.Lib.Outcome
import YcAgent.Lib.Pool

/-!
Finitely many programs that take turns with nobody else about. They cannot do
so for ever. If each of them follows a ghost state of its own, and a view of
the world by all the ghost states together is kept by every operation they
allow, then the view holds at every moment and what is left of each program
still follows its ghost state.
-/

namespace YcAgent.Lib.Program

variable {Op : Type} {Reply : Op → Type} {World α ι : Type} [DecidableEq ι]

namespace Prog

/-- What a program may go on with. -/
def Child (q p : Prog Op Reply α) : Prop := ∃ op next r, p = .act op next ∧ q = next r

theorem child_wellFounded : WellFounded (Child : Prog Op Reply α → Prog Op Reply α → Prop) := by
  constructor
  intro p
  induction p with
  | done a =>
    constructor
    intro q hq
    obtain ⟨op, next, r, heq, -⟩ := hq
    cases heq
  | act op next ih =>
    constructor
    intro q hq
    obtain ⟨op', next', r, heq, rfl⟩ := hq
    cases heq
    exact ih r

theorem Confined.follows {G : Type} {ghost : Ghost Op Reply G} {P : Op → Prop}
    {p : Prog Op Reply α} (h : p.Confined P) (hallowed : ∀ g op, P op → ghost.allowed g op)
    (g : G) :
    p.Follows ghost g fun _ _ => True := by
  induction p generalizing g with
  | done a => trivial
  | act op next ih => exact ⟨hallowed g op h.1, fun r _ => ih r (h.2 r) _⟩

end Prog

variable (perform : (op : Op) → World → Reply op → World → Prop)

def Turn (before after : (ι → Prog Op Reply α) × World) : Prop :=
  ∃ i op next r, before.1 i = .act op next ∧ perform op before.2 r after.2 ∧
    after.1 = Function.update before.1 i (next r)

def Turns : (ι → Prog Op Reply α) × World → (ι → Prog Op Reply α) × World → Prop :=
  Relation.ReflTransGen (Turn perform)

variable {perform} {ps ps' : ι → Prog Op Reply α} {w w' : World}

theorem turn_wellFounded [Finite ι] :
    WellFounded fun after before : (ι → Prog Op Reply α) × World => Turn perform before after := by
  have hlex : WellFounded (Pi.Lex WellOrderingRel
      fun {_ : ι} => (Prog.Child : Prog Op Reply α → Prog Op Reply α → Prop)) :=
    Pi.Lex.wellFounded _ fun _ => Prog.child_wellFounded
  apply Subrelation.wf _ (InvImage.wf Prod.fst hlex)
  intro after before hturn
  obtain ⟨i, op, next, r, hact, -, hafter⟩ := hturn
  refine ⟨i, ?_, op, next, r, hact, ?_⟩
  · intro j hj
    have hne : j ≠ i := by
      rintro rfl
      exact irrefl_of WellOrderingRel j hj
    rw [hafter, Function.update_of_ne hne]
  · rw [hafter, Function.update_self]

theorem turn_of_act {i : ι} {op : Op} {next : Reply op → Prog Op Reply α}
    (hact : ps i = .act op next)
    (hperform : ∃ r w', perform op w r w') : ∃ after, Turn perform (ps, w) after := by
  obtain ⟨r, w', hperform⟩ := hperform
  exact ⟨(Function.update ps i (next r), w'), i, op, next, r, hact, hperform, rfl⟩

theorem Pool.turns {trace : List (ι × Event Op Reply World)}
    (hpool : Pool perform (fun _ _ => False) ps w trace ps' w') :
    Turns perform (ps, w) (ps', w') := by
  induction hpool with
  | rest => exact .refl
  | env hstep _ _ => exact hstep.elim
  | step hact hperform _ ih => exact .head ⟨_, _, _, _, hact, hperform, rfl⟩ ih

section Joint

variable {G : ι → Type} {ghost : (i : ι) → Ghost Op Reply (G i)}
    {view : World → ((i : ι) → G i) → Prop}

variable (perform ghost view) in
/-- The view describes the world by the ghost states through every operation
that the ghost state of its program allows. -/
def Jointly : Prop :=
  ∀ i op w r w' g, (ghost i).allowed (g i) op → view w g → perform op w r w' →
    (ghost i).possible (g i) op r ∧ view w' (Function.update g i ((ghost i).after (g i) op r))

theorem Turn.follows (hjoint : Jointly perform ghost view) {Q : (i : ι) → α → G i → Prop}
    {g : (i : ι) → G i} {before after : (ι → Prog Op Reply α) × World}
    (hps : ∀ i, (before.1 i).Follows (ghost i) (g i) (Q i)) (hview : view before.2 g)
    (hturn : Turn perform before after) :
    ∃ g', (∀ i, (after.1 i).Follows (ghost i) (g' i) (Q i)) ∧ view after.2 g' := by
  obtain ⟨i, op, next, r, hact, hperform, hafter⟩ := hturn
  have hi := hps i
  rw [hact] at hi
  obtain ⟨hpossible, hnext⟩ := hjoint i op _ r _ g hi.1 hview hperform
  refine ⟨_, ?_, hnext⟩
  intro j
  rw [hafter]
  rcases eq_or_ne j i with rfl | hne
  · rw [Function.update_self, Function.update_self]
    exact hi.2 r hpossible
  · rw [Function.update_of_ne hne, Function.update_of_ne hne]
    exact hps j

theorem Turns.follows (hjoint : Jointly perform ghost view) {Q : (i : ι) → α → G i → Prop}
    {g : (i : ι) → G i} {before after : (ι → Prog Op Reply α) × World}
    (hps : ∀ i, (before.1 i).Follows (ghost i) (g i) (Q i)) (hview : view before.2 g)
    (hturns : Turns perform before after) :
    ∃ g', (∀ i, (after.1 i).Follows (ghost i) (g' i) (Q i)) ∧ view after.2 g' := by
  induction hturns with
  | refl => exact ⟨g, hps, hview⟩
  | tail _ hturn ih =>
    obtain ⟨g₁, hps₁, hview₁⟩ := ih
    exact hturn.follows hjoint hps₁ hview₁

end Joint

end YcAgent.Lib.Program
