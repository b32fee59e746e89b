import Mathlib.Logic.Function.Basic
import YcAgent.Lib.Ghost

/-!
Any number of programs that take turns in any order, with an environment that
changes the world between their operations. Each program sees the others, and
the environment, as its interference.
-/

namespace YcAgent.Lib.Program

variable {Op : Type} {Reply : Op → Type} {World α ι : Type} [DecidableEq ι]

section Pool

variable (perform : (op : Op) → World → Reply op → World → Prop) (env : World → World → Prop)

/-- `Pool ps w trace ps' w'`: started in `w`, the programs `ps` have performed
the operations of `trace`, have `ps'` left to do and find themselves in `w'`. -/
inductive Pool : (ι → Prog Op Reply α) → World → List (ι × Event Op Reply World) →
    (ι → Prog Op Reply α) → World → Prop
  | rest {ps w} : Pool ps w [] ps w
  | env {ps w w₁ trace ps' w'} : env w w₁ → Pool ps w₁ trace ps' w' → Pool ps w trace ps' w'
  | step {ps w i op next r w₁ trace ps' w'} : ps i = .act op next → perform op w r w₁ →
      Pool (Function.update ps i (next r)) w₁ trace ps' w' →
      Pool ps w ((i, ⟨w, op, r⟩) :: trace) ps' w'

def ofThread (i : ι) (trace : List (ι × Event Op Reply World)) : Trace Op Reply World :=
  trace.filterMap fun entry => if entry.1 = i then some entry.2 else none

variable {perform env} {ps ps' : ι → Prog Op Reply α} {w w' : World}
variable {trace : List (ι × Event Op Reply World)}

theorem mem_ofThread {i : ι} {e : Event Op Reply World} :
    e ∈ ofThread i trace ↔ (i, e) ∈ trace := by
  simp [ofThread]

theorem ofThread_cons_self (i : ι) (e : Event Op Reply World) :
    ofThread i ((i, e) :: trace) = e :: ofThread i trace := by
  simp [ofThread]

theorem ofThread_cons_of_ne {i j : ι} (hne : j ≠ i) (e : Event Op Reply World) :
    ofThread i ((j, e) :: trace) = ofThread i trace := by
  simp [ofThread, hne]

theorem Pool.steps (mine : Event Op Reply World → Prop) (interfere : World → World → Prop)
    (hpool : Pool perform env ps w trace ps' w') (i : ι)
    (hmine : ∀ e, (i, e) ∈ trace → mine e) (henv : ∀ w w', env w w' → interfere w w')
    (hother : ∀ j e w₁, (j, e) ∈ trace → perform e.op e.before e.reply w₁ →
      interfere e.before w₁) :
    Steps ⟨fun op w r w' => perform op w r w' ∧ mine ⟨w, op, r⟩, interfere⟩ (ps i) w
      (ofThread i trace) (ps' i) w' := by
  induction hpool with
  | rest => exact .rest .refl
  | env hstep _ ih => exact (ih hmine hother).after (.single (henv _ _ hstep))
  | @step ps w j op next r w₁ trace ps' w' hact hperform _ ih =>
    have hmore := ih (fun e he => hmine e (List.mem_cons_of_mem _ he))
      fun j e w₁ he => hother j e w₁ (List.mem_cons_of_mem _ he)
    by_cases heq : j = i
    · subst heq
      rw [Function.update_self] at hmore
      rw [hact, ofThread_cons_self]
      exact .act .refl ⟨hperform, hmine _ List.mem_cons_self⟩ hmore
    · rw [Function.update_of_ne (Ne.symm heq)] at hmore
      rw [ofThread_cons_of_ne heq]
      exact hmore.after (.single (hother _ _ _ List.mem_cons_self hperform))

theorem Pool.append {ps₁ : ι → Prog Op Reply α} {w₁ : World}
    {more : List (ι × Event Op Reply World)} (hfirst : Pool perform env ps w trace ps₁ w₁)
    (hsecond : Pool perform env ps₁ w₁ more ps' w') :
    Pool perform env ps w (trace ++ more) ps' w' := by
  induction hfirst with
  | rest => exact hsecond
  | env hstep _ ih => exact .env hstep (ih hsecond)
  | step hact hperform _ ih => exact .step hact hperform (ih hsecond)

theorem Pool.of_env_le {env' : World → World → Prop} (hpool : Pool perform env ps w trace ps' w')
    (hle : ∀ w w', env w w' → env' w w') : Pool perform env' ps w trace ps' w' := by
  induction hpool with
  | rest => exact .rest
  | env hstep _ ih => exact .env (hle _ _ hstep) ih
  | step hact hperform _ ih => exact .step hact hperform ih

theorem Pool.untouched (hpool : Pool perform env ps w trace ps' w') {i : ι}
    (hnone : ∀ e, (i, e) ∉ trace) : ps' i = ps i := by
  induction hpool with
  | rest => rfl
  | env _ _ ih => exact ih hnone
  | @step ps w j op next r w₁ trace ps' w' _ _ _ ih =>
    have hne : i ≠ j := by
      rintro rfl
      exact hnone _ List.mem_cons_self
    rw [ih fun e he => hnone e (List.mem_cons_of_mem _ he), Function.update_of_ne hne]

def playPool (host : (op : Op) → World → Option (Reply op × World)) : List ι →
    (ι → Prog Op Reply α) → World →
    Option (List (ι × Event Op Reply World) × (ι → Prog Op Reply α) × World)
  | [], ps, w => some ([], ps, w)
  | i :: turns, ps, w =>
    match ps i with
    | .done _ => none
    | .act op next =>
      match host op w with
      | none => none
      | some (r, w₁) => (playPool host turns (Function.update ps i (next r)) w₁).map
          fun (trace, rest) => ((i, ⟨w, op, r⟩) :: trace, rest)

theorem playPool_pool {host : (op : Op) → World → Option (Reply op × World)}
    (hhost : ∀ op w r w', host op w = some (r, w') → perform op w r w') {turns : List ι}
    (hplay : playPool host turns ps w = some (trace, ps', w')) :
    Pool perform env ps w trace ps' w' := by
  induction turns generalizing ps w trace with
  | nil =>
    cases hplay
    exact .rest
  | cons i turns ih =>
    simp only [playPool] at hplay
    split at hplay
    · cases hplay
    · next op next hact =>
        split at hplay
        · cases hplay
        · next r w₁ hanswer =>
            obtain ⟨⟨more, rest⟩, hrest, heq⟩ := Option.map_eq_some_iff.mp hplay
            cases heq
            exact .step hact (hhost op w r w₁ hanswer) (ih hrest)

end Pool

end YcAgent.Lib.Program
