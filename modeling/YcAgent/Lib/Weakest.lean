import YcAgent.Lib.Outcome

/-!
Programs run alone, with the world they leave. `Meets` is a postcondition of
every run of a program from a world, by recursion on the program, with one
rule per way a program is put together. `History` are the states of an object
whose methods are such programs: calls run alone, one after the other, and the
environment changes the world between them.
-/

namespace YcAgent.Lib.Program

variable {Op : Type} {Reply : Op → Type} {World α β γ : Type}

namespace Prog

/-- Every run of `p` from `w` ends with a result and in a world that satisfy
`Q`. -/
def Meets (perform : (op : Op) → World → Reply op → World → Prop) :
    Prog Op Reply α → World → (α → World → Prop) → Prop
  | .done a, w, Q => Q a w
  | .act op next, w, Q => ∀ r w', perform op w r w' → (next r).Meets perform w' Q

variable {perform : (op : Op) → World → Reply op → World → Prop} {w : World}

@[simp] theorem meets_done (a : α) (Q : α → World → Prop) :
    (done a : Prog Op Reply α).Meets perform w Q ↔ Q a w := Iff.rfl

@[simp] theorem meets_bind (p : Prog Op Reply α) (k : α → Prog Op Reply β)
    (Q : β → World → Prop) :
    (p >>= k).Meets perform w Q ↔
      p.Meets perform w fun a w' => (k a).Meets perform w' Q := by
  induction p generalizing w with
  | done a => rfl
  | act op next ih =>
    exact forall_congr' fun r => forall_congr' fun w' => imp_congr_right fun _ => ih r

theorem Meets.mono {p : Prog Op Reply α} {Q R : α → World → Prop}
    (h : p.Meets perform w Q) (hQR : ∀ a w, Q a w → R a w) : p.Meets perform w R := by
  induction p generalizing w with
  | done a => exact hQR a w h
  | act op next ih => exact fun r w' hperform => ih r (h r w' hperform)

theorem Meets.of_le {perform' : (op : Op) → World → Reply op → World → Prop}
    {p : Prog Op Reply α} {Q : α → World → Prop} (h : p.Meets perform w Q)
    (hle : ∀ op w r w', perform' op w r w' → perform op w r w') : p.Meets perform' w Q := by
  induction p generalizing w with
  | done a => exact h
  | act op next ih => exact fun r w' hperform => ih r (h r w' (hle op w r w' hperform))

/-- The rule of a loop, for an invariant that knows what is still to be
visited. -/
theorem meets_foldlM {f : β → γ → Prog Op Reply β} (inv : List γ → β → World → Prop)
    (hround : ∀ x rest b w, inv (x :: rest) b w → (f b x).Meets perform w (inv rest))
    (xs : List γ) {b : β} (hstart : inv xs b w) :
    (xs.foldlM f b).Meets perform w (inv []) := by
  induction xs generalizing b w with
  | nil => exact hstart
  | cons x xs ih =>
    rw [List.foldlM_cons, meets_bind]
    apply (hround x xs b w hstart).mono
    intro b' w' hrest
    exact ih hrest

theorem Ensures.meets {p : Prog Op Reply α} {Q : α → Prop} (h : p.Ensures Q) :
    p.Meets perform w fun a _ => Q a := by
  induction p generalizing w with
  | done a => exact h
  | act op next ih => exact fun r w' _ => ih r (h r)

end Prog

section Runs

variable {perform : (op : Op) → World → Reply op → World → Prop}
variable {w w' : World} {trace : Trace Op Reply World} {p : Prog Op Reply α} {a : α}

theorem Runs.of_meets {Q : α → World → Prop} (hp : p.Meets perform w Q)
    (h : Runs perform p w trace a w') : Q a w' := by
  induction p generalizing w trace with
  | done b =>
    obtain ⟨_, rfl, rfl⟩ := h.of_done
    exact hp
  | act op next ih =>
    obtain ⟨r, w₁, more, hperform, _, hmore⟩ := h.of_act
    exact ih r (hp r w₁ hperform) hmore

/-- A run whose operations have a property is a run of the operations that
have it. -/
theorem Runs.restrict (mine : Event Op Reply World → Prop) (h : Runs perform p w trace a w')
    (hmine : ∀ e ∈ trace, mine e) :
    Runs (fun op w r w' => perform op w r w' ∧ mine ⟨w, op, r⟩) p w trace a w' := by
  induction p generalizing w trace with
  | done b =>
    obtain ⟨rfl, rfl, rfl⟩ := h.of_done
    exact .rest .refl
  | act op next ih =>
    obtain ⟨r, w₁, more, hperform, rfl, hmore⟩ := h.of_act
    exact .act .refl ⟨hperform, hmine _ List.mem_cons_self⟩
      (ih r hmore fun e he => hmine e (List.mem_cons_of_mem _ he))

end Runs

section History

variable {Call σ : Type} (perform : (op : Op) → World → Reply op → World → Prop)
variable (env : World → World → Prop) (body : Call → σ → Prog Op Reply (σ × β))

/-- The states of an object and its world between calls. -/
inductive History (init : σ → World → Prop) : σ → World → Prop
  | start {s w} : init s w → History init s w
  | env {s w w'} : History init s w → env w w' → History init s w'
  | call {s w c trace s' b w'} : History init s w →
      Runs perform (body c s) w trace (s', b) w' → History init s' w'

variable {perform env body}

theorem History.invariant {init : σ → World → Prop} (inv : σ → World → Prop)
    (hinit : ∀ s w, init s w → inv s w) (henv : ∀ s w w', inv s w → env w w' → inv s w')
    (hcall : ∀ c s w, inv s w → (body c s).Meets perform w fun out w' => inv out.1 w')
    {s : σ} {w : World} (h : History perform env body init s w) : inv s w := by
  induction h with
  | start h => exact hinit _ _ h
  | env _ hstep ih => exact henv _ _ _ ih hstep
  | call _ hrun ih => exact hrun.of_meets (Q := fun out w' => inv out.1 w') (hcall _ _ _ ih)

end History

end YcAgent.Lib.Program
