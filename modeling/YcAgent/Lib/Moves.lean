import Mathlib.Init

/-!
Runs of a machine whose moves are made by several parties in some order. A move
that cannot be made ends the run. What is known of the moves of a run is stated
at the states in which they are made.
-/

namespace YcAgent.Lib.Moves

variable {State Move : Type*}

section Run

variable (step : State → Move → Option State)

def run : List Move → State → Option State
  | [], s => some s
  | m :: moves, s => (step s m).bind (run moves)

/-- Every move of the run is made in a state where it is `fit`. -/
def Fits (fit : State → Move → Prop) : List Move → State → Prop
  | [], _ => True
  | m :: moves, s => fit s m ∧ ∀ s', step s m = some s' → Fits fit moves s'

end Run

variable {step : State → Move → Option State} {fit : State → Move → Prop}

theorem run_append (moves more : List Move) (s : State) :
    run step (moves ++ more) s = (run step moves s).bind (run step more) := by
  induction moves generalizing s with
  | nil => rfl
  | cons m moves ih =>
    rw [List.cons_append, run, run]
    cases step s m with
    | none => rfl
    | some next => exact ih next

theorem run_keeps {inv : State → Prop}
    (hstep : ∀ s m s', inv s → fit s m → step s m = some s' → inv s')
    {moves : List Move} {s s' : State} (hs : inv s) (hfits : Fits step fit moves s)
    (hrun : run step moves s = some s') : inv s' := by
  induction moves generalizing s with
  | nil =>
    cases hrun
    exact hs
  | cons m moves ih =>
    obtain ⟨next, hmove, hrest⟩ := Option.bind_eq_some_iff.1 hrun
    exact ih (hstep s m next hs hfits.1 hmove) (hfits.2 next hmove) hrest

theorem fits_cons_iff {m : Move} {moves : List Move} {s next : State}
    (hmove : step s m = some next) :
    Fits step fit (m :: moves) s ↔ fit s m ∧ Fits step fit moves next := by
  refine and_congr_right fun _ => ⟨fun h => h next hmove, fun h s' hs' => ?_⟩
  cases hmove.symm.trans hs'
  exact h

instance decidableFits [∀ s m, Decidable (fit s m)] :
    (moves : List Move) → (s : State) → Decidable (Fits step fit moves s)
  | [], _ => .isTrue trivial
  | m :: moves, s =>
    match hmove : step s m with
    | none => decidable_of_iff (fit s m)
        ⟨fun hfit => ⟨hfit, fun _ hs' => nomatch hmove.symm.trans hs'⟩, And.left⟩
    | some next =>
      have := decidableFits moves next
      decidable_of_iff _ (fits_cons_iff hmove).symm

theorem fits_of_forall (hfit : ∀ s m, fit s m) (moves : List Move) (s : State) :
    Fits step fit moves s := by
  induction moves generalizing s with
  | nil => trivial
  | cons m moves ih => exact ⟨hfit s m, fun s' _ => ih s'⟩

/-- An unfit move leaves a mark that no later move removes, so a run without it
has made fit moves only. -/
theorem fits_or_marked {inv mark : State → Prop}
    (hinv : ∀ s m s', inv s → step s m = some s' → inv s')
    (hunfit : ∀ s m s', inv s → ¬fit s m → step s m = some s' → mark s')
    (hmark : ∀ s m s', inv s → mark s → step s m = some s' → mark s')
    {moves : List Move} {s s' : State} (hs : inv s) (hrun : run step moves s = some s') :
    Fits step fit moves s ∨ mark s' := by
  induction moves generalizing s with
  | nil => exact .inl trivial
  | cons m moves ih =>
    obtain ⟨next, hmove, hrest⟩ := Option.bind_eq_some_iff.1 hrun
    have hnext := hinv s m next hs hmove
    by_cases hfit : fit s m
    · exact (ih hnext hrest).imp_left fun hfits => (fits_cons_iff hmove).2 ⟨hfit, hfits⟩
    · have hkeeps : ∀ s m s', inv s ∧ mark s → True → step s m = some s' → inv s' ∧ mark s' :=
        fun s m s' h _ hstep => ⟨hinv s m s' h.1 hstep, hmark s m s' h.1 h.2 hstep⟩
      have hmarked := hunfit s m next hs hfit hmove
      exact .inr (run_keeps hkeeps ⟨hnext, hmarked⟩
        (fits_of_forall (fun _ _ => trivial) moves next) hrest).2

end YcAgent.Lib.Moves
