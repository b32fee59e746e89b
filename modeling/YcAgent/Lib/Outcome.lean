import YcAgent.Lib.Program

/-!
What a program returns whatever it is answered. Here the operations may answer
anything their reply types allow: `Returns` are the results a program can come
to, and `Ensures` a postcondition of all of them, with one rule per way a
program is put together.
-/

namespace YcAgent.Lib.Program

variable {Op : Type} {Reply : Op → Type} {α β γ : Type}

namespace Prog

/-- `p` can return `a`, for some answers to its operations. -/
inductive Returns : Prog Op Reply α → α → Prop
  | done (a : α) : Returns (.done a) a
  | act {op : Op} {next : Reply op → Prog Op Reply α} {a : α} (r : Reply op) :
      Returns (next r) a → Returns (.act op next) a

/-- Whatever `p` is answered, what it returns satisfies `Q`. -/
def Ensures : Prog Op Reply α → (α → Prop) → Prop
  | .done a, Q => Q a
  | .act _ next, Q => ∀ r, (next r).Ensures Q

@[simp] theorem ensures_done (a : α) (Q : α → Prop) :
    (done a : Prog Op Reply α).Ensures Q ↔ Q a := Iff.rfl

@[simp] theorem ensures_act (op : Op) (next : Reply op → Prog Op Reply α) (Q : α → Prop) :
    (act op next).Ensures Q ↔ ∀ r, (next r).Ensures Q := Iff.rfl

@[simp] theorem ensures_bind (p : Prog Op Reply α) (k : α → Prog Op Reply β) (Q : β → Prop) :
    (p >>= k).Ensures Q ↔ p.Ensures fun a => (k a).Ensures Q := by
  induction p with
  | done a => rfl
  | act op next ih => exact forall_congr' ih

theorem Ensures.mono {p : Prog Op Reply α} {Q R : α → Prop} (h : p.Ensures Q)
    (hQR : ∀ a, Q a → R a) : p.Ensures R := by
  induction p with
  | done a => exact hQR a h
  | act op next ih => exact fun r => ih r (h r)

theorem ensures_of_forall {Q : α → Prop} (hQ : ∀ a, Q a) (p : Prog Op Reply α) : p.Ensures Q := by
  induction p with
  | done a => exact hQ a
  | act op next ih => exact ih

theorem Ensures.of_returns {p : Prog Op Reply α} {Q : α → Prop} (h : p.Ensures Q) {a : α}
    (hreturns : p.Returns a) : Q a := by
  induction hreturns with
  | done a => exact h
  | act r _ ih => exact ih (h r)

/-- The rule of a loop: each round keeps the invariant. -/
theorem ensures_foldlM {f : β → γ → Prog Op Reply β} {xs : List γ} {b : β} (inv : β → Prop)
    (hstart : inv b) (hstep : ∀ b, ∀ x ∈ xs, inv b → (f b x).Ensures inv) :
    (xs.foldlM f b).Ensures inv := by
  induction xs generalizing b with
  | nil => exact hstart
  | cons x xs ih =>
    rw [List.foldlM_cons, ensures_bind]
    apply (hstep b x List.mem_cons_self hstart).mono
    intro b' hb'
    apply ih hb'
    intro c y hy
    exact hstep c y (List.mem_cons_of_mem _ hy)

/-- Whatever `p` is answered, all operations it performs satisfy `P`. -/
def Confined (P : Op → Prop) : Prog Op Reply α → Prop
  | .done _ => True
  | .act op next => P op ∧ ∀ r, (next r).Confined P

@[simp] theorem confined_done (P : Op → Prop) (a : α) :
    (done a : Prog Op Reply α).Confined P ↔ True := Iff.rfl

@[simp] theorem confined_act (P : Op → Prop) (op : Op) (next : Reply op → Prog Op Reply α) :
    (act op next).Confined P ↔ P op ∧ ∀ r, (next r).Confined P := Iff.rfl

theorem confined_of_forall {P : Op → Prop} (hP : ∀ op, P op) (p : Prog Op Reply α) :
    p.Confined P := by
  induction p with
  | done a => trivial
  | act op next ih => exact ⟨hP op, ih⟩

theorem Confined.bind {P : Op → Prop} {p : Prog Op Reply α} {k : α → Prog Op Reply β}
    (h : p.Confined P) (hk : ∀ a, (k a).Confined P) : (p >>= k).Confined P := by
  induction p with
  | done a => exact hk a
  | act op next ih => exact ⟨h.1, fun r => ih r (h.2 r)⟩

theorem Confined.of_bind {P : Op → Prop} {p : Prog Op Reply α} {k : α → Prog Op Reply β}
    (h : (p >>= k).Confined P) : p.Confined P := by
  induction p with
  | done a => trivial
  | act op next ih => exact ⟨h.1, fun r => ih r (h.2 r)⟩

theorem Confined.interpret {Op' : Type} {Reply' : Op' → Type} {P : Op → Prop} {Q : Op' → Prop}
    {handle : (op : Op) → Prog Op' Reply' (Reply op)}
    (hhandle : ∀ op, P op → (handle op).Confined Q)
    {p : Prog Op Reply α} (h : p.Confined P) : (p.interpret handle).Confined Q := by
  induction p with
  | done a => trivial
  | act op next ih => exact (hhandle op h.1).bind fun r => ih r (h.2 r)

/-- Runs a program on given answers. -/
def runWith (answer : (op : Op) → Reply op) : Prog Op Reply α → α
  | .done a => a
  | .act op next => (next (answer op)).runWith answer

theorem returns_runWith (answer : (op : Op) → Reply op) (p : Prog Op Reply α) :
    p.Returns (p.runWith answer) := by
  induction p with
  | done a => exact .done a
  | act op next ih => exact .act (answer op) (ih (answer op))

end Prog

end YcAgent.Lib.Program
