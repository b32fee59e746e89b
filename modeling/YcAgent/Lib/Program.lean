import Mathlib.Logic.Relation

/-!
Programs that talk to a shared world one operation at a time, run against an
environment that may change the world between any two operations. A program is
a tree: an operation, and for each reply what is done next. `Steps` are the
moments of a run of one program, with the operations it has performed so far;
`Calls` are runs that make one call after the other. A program is executed
symbolically by the inversion rules below, one per constructor and one for
sequencing.
-/

namespace YcAgent.Lib.Program

inductive Prog (Op : Type) (Reply : Op → Type) (α : Type) where
  | done (a : α)
  | act (op : Op) (next : Reply op → Prog Op Reply α)

variable {Op : Type} {Reply : Op → Type} {World α β : Type}

namespace Prog

def bind (p : Prog Op Reply α) (k : α → Prog Op Reply β) : Prog Op Reply β :=
  match p with
  | .done a => k a
  | .act op next => .act op fun r => (next r).bind k

instance : Monad (Prog Op Reply) where
  pure := .done
  bind := bind

def perform (op : Op) : Prog Op Reply (Reply op) := .act op .done

@[simp] theorem pure_eq (a : α) : (pure a : Prog Op Reply α) = .done a := rfl

@[simp] theorem done_bind (a : α) (k : α → Prog Op Reply β) : (done a >>= k) = k a := rfl

@[simp] theorem act_bind (op : Op) (next : Reply op → Prog Op Reply α)
    (k : α → Prog Op Reply β) : (act op next >>= k) = act op fun r => next r >>= k := rfl

@[simp] theorem perform_bind (op : Op) (k : Reply op → Prog Op Reply β) :
    (perform op >>= k) = act op k := rfl

def interpret {Op' : Type} {Reply' : Op' → Type} (handle : (op : Op) → Prog Op' Reply' (Reply op)) :
    Prog Op Reply α → Prog Op' Reply' α
  | .done a => .done a
  | .act op next => handle op >>= fun r => (next r).interpret handle

theorem bind_assoc {γ : Type} (p : Prog Op Reply α) (k : α → Prog Op Reply β)
    (l : β → Prog Op Reply γ) : (p >>= k) >>= l = p >>= fun a => k a >>= l := by
  induction p with
  | done a => rfl
  | act op next ih =>
    simp only [act_bind]
    exact congrArg (act op) (funext ih)

theorem interpret_bind {Op' : Type} {Reply' : Op' → Type}
    (handle : (op : Op) → Prog Op' Reply' (Reply op)) (p : Prog Op Reply α)
    (k : α → Prog Op Reply β) :
    (p >>= k).interpret handle = p.interpret handle >>= fun a => (k a).interpret handle := by
  induction p with
  | done a => rfl
  | act op next ih =>
    simp only [act_bind, interpret, bind_assoc]
    congr 1
    exact funext ih

end Prog

/-- What an operation may answer and do, and what the environment may do
between two operations. -/
structure Semantics (Op : Type) (Reply : Op → Type) (World : Type) where
  perform : (op : Op) → World → Reply op → World → Prop
  interfere : World → World → Prop

/-- An operation as it happened: the world it found and the reply it got. -/
structure Event (Op : Type) (Reply : Op → Type) (World : Type) where
  before : World
  op : Op
  reply : Reply op

abbrev Trace (Op : Type) (Reply : Op → Type) (World : Type) :=
  List (Event Op Reply World)

variable (sem : Semantics Op Reply World)

def Semantics.Interferes : World → World → Prop := Relation.ReflTransGen sem.interfere

/-- `Steps p w trace p' w'`: started in `w`, the program `p` has performed the
operations of `trace`, has `p'` left to do and finds itself in `w'`. -/
inductive Steps : Prog Op Reply α → World → Trace Op Reply World →
    Prog Op Reply α → World → Prop
  | rest {p w w'} : sem.Interferes w w' → Steps p w [] p w'
  | act {op next w w₁ r w₂ trace p' w'} : sem.Interferes w w₁ → sem.perform op w₁ r w₂ →
      Steps (next r) w₂ trace p' w' →
      Steps (.act op next) w (⟨w₁, op, r⟩ :: trace) p' w'

section Execution

variable {sem}
variable {w w' : World} {trace : Trace Op Reply World}

theorem Steps.of_done {a : α} {p' : Prog Op Reply α}
    (hsteps : Steps sem (.done a) w trace p' w') :
    trace = [] ∧ p' = .done a ∧ sem.Interferes w w' := by
  cases hsteps with
  | rest hstar => exact ⟨rfl, rfl, hstar⟩

theorem Steps.of_act {op : Op} {next : Reply op → Prog Op Reply α} {p' : Prog Op Reply α}
    (hsteps : Steps sem (.act op next) w trace p' w') :
    (trace = [] ∧ p' = .act op next ∧ sem.Interferes w w') ∨
      ∃ w₁ r w₂ more, sem.Interferes w w₁ ∧ sem.perform op w₁ r w₂ ∧
        trace = ⟨w₁, op, r⟩ :: more ∧ Steps sem (next r) w₂ more p' w' := by
  cases hsteps with
  | rest hstar => exact .inl ⟨rfl, rfl, hstar⟩
  | act hstar hperform hmore =>
    exact .inr ⟨_, _, _, _, hstar, hperform, rfl, hmore⟩

theorem Steps.of_act_done {op : Op} {next : Reply op → Prog Op Reply α} {a : α}
    (hsteps : Steps sem (.act op next) w trace (.done a) w') :
    ∃ w₁ r w₂ more, sem.Interferes w w₁ ∧ sem.perform op w₁ r w₂ ∧
      trace = ⟨w₁, op, r⟩ :: more ∧ Steps sem (next r) w₂ more (.done a) w' := by
  rcases hsteps.of_act with ⟨_, hne, _⟩ | hperformed
  · cases hne
  · exact hperformed

theorem Steps.single {op : Op} {next : Reply op → Prog Op Reply α} {w₁ : World} {r : Reply op}
    (hstar : sem.Interferes w w₁) (hperform : sem.perform op w₁ r w') :
    Steps sem (.act op next) w [⟨w₁, op, r⟩] (next r) w' :=
  .act hstar hperform (.rest .refl)

/-- A moment of `p >>= k` is a moment of `p`, or one of `k a` for the result
`a` of `p`. -/
theorem Steps.of_bind {p : Prog Op Reply α} {k : α → Prog Op Reply β}
    {p' : Prog Op Reply β} (hsteps : Steps sem (p >>= k) w trace p' w') :
    (∃ op next, Steps sem p w trace (.act op next) w' ∧
        p' = .act op fun r => next r >>= k) ∨
      ∃ first a w₁ second, trace = first ++ second ∧
        Steps sem p w first (.done a) w₁ ∧ Steps sem (k a) w₁ second p' w' := by
  induction p generalizing w trace with
  | done a =>
    exact .inr ⟨[], a, w, trace, rfl, .rest .refl, hsteps⟩
  | act op next ih =>
    rcases hsteps.of_act with ⟨rfl, rfl, hstar⟩ | ⟨w₁, r, w₂, more, hstar, hperform, rfl, hmore⟩
    · exact .inl ⟨op, next, .rest hstar, rfl⟩
    · rcases ih r hmore with ⟨op', next', hq, rfl⟩ | ⟨first, a, w₃, second, rfl, hfirst, hsecond⟩
      · exact .inl ⟨op', next', .act hstar hperform hq, rfl⟩
      · exact .inr ⟨_ :: first, a, w₃, second, rfl, .act hstar hperform hfirst, hsecond⟩

theorem Steps.after {w₁ : World} {p p' : Prog Op Reply α} (hstar : sem.Interferes w w₁)
    (hsteps : Steps sem p w₁ trace p' w') : Steps sem p w trace p' w' := by
  cases hsteps with
  | rest hstar' => exact .rest (hstar.trans hstar')
  | act hstar' hperform hmore => exact .act (hstar.trans hstar') hperform hmore

variable (sem) in
def Comes (p : Prog Op Reply α) (w : World) (a : α) (w' : World) : Prop :=
  ∃ trace, Steps sem p w trace (.done a) w'

theorem Comes.done (a : α) : Comes sem (.done a) w a w := ⟨[], .rest .refl⟩

theorem Comes.after {p : Prog Op Reply α} {w₁ : World} {a : α} (hstar : sem.Interferes w w₁)
    (h : Comes sem p w₁ a w') : Comes sem p w a w' := by
  obtain ⟨trace, hsteps⟩ := h
  exact ⟨trace, hsteps.after hstar⟩

theorem Comes.act {op : Op} {next : Reply op → Prog Op Reply α} {w₁ w₂ : World}
    {r : Reply op} {a : α}
    (hstar : sem.Interferes w w₁) (hperform : sem.perform op w₁ r w₂)
    (hnext : Comes sem (next r) w₂ a w') : Comes sem (.act op next) w a w' := by
  obtain ⟨trace, hsteps⟩ := hnext
  exact ⟨_, .act hstar hperform hsteps⟩

theorem Comes.bind {p : Prog Op Reply α} {k : α → Prog Op Reply β} {w₁ : World} {a : α} {b : β}
    (hp : Comes sem p w a w₁) (hk : Comes sem (k a) w₁ b w') : Comes sem (p >>= k) w b w' := by
  obtain ⟨first, hfirst⟩ := hp
  induction p generalizing w first with
  | done c =>
    obtain ⟨rfl, heq, hstar⟩ := hfirst.of_done
    cases heq
    obtain ⟨second, hsecond⟩ := hk
    exact ⟨second, hsecond.after hstar⟩
  | act op next ih =>
    obtain ⟨w₂, r, w₃, more, hstar, hperform, rfl, hmore⟩ := hfirst.of_act_done
    exact .act hstar hperform (ih r more hmore)

def Semantics.Step (sem : Semantics Op Reply World) (w w' : World) : Prop :=
  sem.interfere w w' ∨ ∃ op r, sem.perform op w r w'

def Semantics.Evolves (sem : Semantics Op Reply World) : World → World → Prop :=
  Relation.ReflTransGen sem.Step

theorem Semantics.Interferes.evolves (h : sem.Interferes w w') : sem.Evolves w w' := by
  induction h with
  | refl => exact .refl
  | tail _ hstep ih => exact ih.tail (.inl hstep)

theorem Semantics.Evolves.perform {w₁ : World} (h : sem.Evolves w w₁) {op : Op} {r : Reply op}
    (hperform : sem.perform op w₁ r w') : sem.Evolves w w' :=
  h.tail (.inr ⟨op, r, hperform⟩)

theorem Steps.evolves {p p' : Prog Op Reply α} (hsteps : Steps sem p w trace p' w') :
    sem.Evolves w w' := by
  induction hsteps with
  | rest hstar => exact hstar.evolves
  | act hstar hperform _ ih => exact (hstar.evolves.perform hperform).trans ih

/-- What holds of every step of the environment and of every operation holds
of any two moments of a run. -/
theorem Semantics.Evolves.related {R : World → World → Prop} (hrefl : ∀ w, R w w)
    (htrans : ∀ w₁ w₂ w₃, R w₁ w₂ → R w₂ w₃ → R w₁ w₃)
    (hstep : ∀ w w', sem.Step w w' → R w w') (h : sem.Evolves w w') : R w w' := by
  induction h with
  | refl => exact hrefl _
  | tail _ hlast ih => exact htrans _ _ _ ih (hstep _ _ hlast)

/-- A function of the world that the environment never changes, nor any of the
operations performed, has its value at the start. -/
theorem Steps.unchanged {γ : Type} {f : World → γ} {p p' : Prog Op Reply α}
    (hsteps : Steps sem p w trace p' w') (hinterfere : ∀ w w', sem.interfere w w' → f w' = f w)
    (hperform : ∀ e ∈ trace, ∀ w₂, sem.perform e.op e.before e.reply w₂ → f w₂ = f e.before) :
    f w' = f w := by
  have hstar {w w' : World} (h : sem.Interferes w w') : f w' = f w := by
    induction h with
    | refl => rfl
    | tail _ hstep ih => exact (hinterfere _ _ hstep).trans ih
  induction hsteps with
  | rest h => exact hstar h
  | act h hp _ ih =>
    calc
      _ = _ := ih fun e he => hperform e (List.mem_cons_of_mem _ he)
      _ = _ := hperform _ List.mem_cons_self _ hp
      _ = _ := hstar h

end Execution

section Calls

variable {Call : Type} (body : Call → Prog Op Reply α)

/-- A call that has returned, with the worlds it was made and returned in. -/
structure Completed (Call : Type) (Op : Type) (Reply : Op → Type) (World α : Type) where
  call : Call
  start : World
  trace : Trace Op Reply World
  result : α
  finish : World

/-- Runs that make one call after the other, with the calls that have
returned. -/
inductive Calls (init : World) : List (Completed Call Op Reply World α) → World → Prop
  | start {w} : sem.Interferes init w → Calls init [] w
  | call {calls w c trace a w'} : Calls init calls w →
      Steps sem (body c) w trace (.done a) w' →
      Calls init (calls ++ [⟨c, w, trace, a, w'⟩]) w'

variable {sem body}

/-- An invariant of the state between calls: it holds at the start, whatever
the environment does there, and each call keeps it. -/
theorem Calls.invariant (idle : List (Completed Call Op Reply World α) → World → Prop)
    {init w : World} {calls : List (Completed Call Op Reply World α)}
    (hstart : ∀ w, sem.Interferes init w → idle [] w)
    (hcall : ∀ calls w c trace a w', idle calls w →
      Steps sem (body c) w trace (.done a) w' → idle (calls ++ [⟨c, w, trace, a, w'⟩]) w')
    (hcalls : Calls sem body init calls w) : idle calls w := by
  induction hcalls with
  | start hstar => exact hstart _ hstar
  | call _ hsteps ih => exact hcall _ _ _ _ _ _ ih hsteps

theorem Calls.steps {init w : World} {calls : List (Completed Call Op Reply World α)}
    (hcalls : Calls sem body init calls w) {call : Completed Call Op Reply World α}
    (hcall : call ∈ calls) :
    Steps sem (body call.call) call.start call.trace (.done call.result) call.finish := by
  induction hcalls with
  | start _ => cases hcall
  | call _ hsteps ih =>
    rcases List.mem_append.mp hcall with hcall | hcall
    · exact ih hcall
    · rw [List.mem_singleton.mp hcall]
      exact hsteps

end Calls

section Alone

variable (perform : (op : Op) → World → Reply op → World → Prop)

/-- A world that nothing but the program changes. -/
def Semantics.alone : Semantics Op Reply World := ⟨perform, fun _ _ => False⟩

/-- Run alone in `w`, the program performs the operations of `trace`, returns
`a` and leaves `w'`. -/
def Runs (p : Prog Op Reply α) (w : World) (trace : Trace Op Reply World) (a : α)
    (w' : World) : Prop :=
  Steps (.alone perform) p w trace (.done a) w'

variable {perform} {w w' : World} {trace : Trace Op Reply World}

theorem interferes_alone (h : (Semantics.alone perform).Interferes w w') : w' = w := by
  cases h with
  | refl => rfl
  | tail _ hstep => exact hstep.elim

theorem Runs.of_done {a b : α} (h : Runs perform (.done b) w trace a w') :
    trace = [] ∧ a = b ∧ w' = w := by
  obtain ⟨rfl, heq, hstar⟩ := Steps.of_done h
  cases heq
  exact ⟨rfl, rfl, interferes_alone hstar⟩

theorem Runs.of_act {op : Op} {next : Reply op → Prog Op Reply α} {a : α}
    (h : Runs perform (.act op next) w trace a w') :
    ∃ r w₁ more, perform op w r w₁ ∧ trace = ⟨w, op, r⟩ :: more ∧
      Runs perform (next r) w₁ more a w' := by
  obtain ⟨w₁, r, w₂, more, hstar, hperform, rfl, hmore⟩ := Steps.of_act_done h
  obtain rfl := interferes_alone hstar
  exact ⟨r, w₂, more, hperform, rfl, hmore⟩

theorem Runs.step {op : Op} {next : Reply op → Prog Op Reply α} {r : Reply op} {w₁ : World} {a : α}
    (hperform : perform op w r w₁) (hmore : Runs perform (next r) w₁ trace a w') :
    Runs perform (.act op next) w (⟨w, op, r⟩ :: trace) a w' := Steps.act .refl hperform hmore

theorem Runs.stop (a : α) : Runs perform (.done a : Prog Op Reply α) w [] a w := Steps.rest .refl

theorem Runs.of_bind {p : Prog Op Reply α} {k : α → Prog Op Reply β} {b : β}
    (h : Runs perform (p >>= k) w trace b w') :
    ∃ first a w₁ second, trace = first ++ second ∧ Runs perform p w first a w₁ ∧
      Runs perform (k a) w₁ second b w' := by
  rcases Steps.of_bind h with ⟨op, next, _, heq⟩ | hparts
  · cases heq
  · exact hparts

theorem Runs.bind {p : Prog Op Reply α} {k : α → Prog Op Reply β} {a : α} {b : β} {w₁ : World}
    {second : Trace Op Reply World} (h : Runs perform p w trace a w₁)
    (hmore : Runs perform (k a) w₁ second b w') :
    Runs perform (p >>= k) w (trace ++ second) b w' := by
  induction p generalizing w trace with
  | done a =>
    obtain ⟨rfl, rfl, rfl⟩ := h.of_done
    exact hmore
  | act op next ih =>
    obtain ⟨r, w₂, more, hperform, rfl, hrest⟩ := h.of_act
    exact .step hperform (ih r hrest)

def play (host : (op : Op) → World → Reply op × World) :
    Prog Op Reply α → World → Trace Op Reply World × α × World
  | .done a, w => ([], a, w)
  | .act op next, w =>
    let (r, w₁) := host op w
    let (trace, a, w') := play host (next r) w₁
    (⟨w, op, r⟩ :: trace, a, w')

theorem play_bind (host : (op : Op) → World → Reply op × World) (p : Prog Op Reply α)
    (k : α → Prog Op Reply β) (w : World) :
    play host (p >>= k) w =
      ((play host p w).1 ++ (play host (k (play host p w).2.1) (play host p w).2.2).1,
        (play host (k (play host p w).2.1) (play host p w).2.2).2) := by
  induction p generalizing w with
  | done a => rfl
  | act op next ih => simp only [Prog.act_bind, play, ih, List.cons_append]

theorem play_act_snd (host : (op : Op) → World → Reply op × World) (op : Op)
    (next : Reply op → Prog Op Reply α) (w : World) :
    (play host (.act op next) w).2 = (play host (next (host op w).1) (host op w).2).2 := rfl

theorem play_bind_snd (host : (op : Op) → World → Reply op × World) (p : Prog Op Reply α)
    (k : α → Prog Op Reply β) (w : World) :
    (play host (p >>= k) w).2 = (play host (k (play host p w).2.1) (play host p w).2.2).2 := by
  rw [play_bind]

theorem play_runs {host : (op : Op) → World → Reply op × World}
    (hhost : ∀ op w, perform op w (host op w).1 (host op w).2) (p : Prog Op Reply α) (w : World) :
    Runs perform p w (play host p w).1 (play host p w).2.1 (play host p w).2.2 := by
  induction p generalizing w with
  | done a => exact .rest .refl
  | act op next ih => exact .act .refl (hhost op w) (ih _ _)

theorem play_on (host : (op : Op) → World → Reply op × World) (p : Prog Op Reply α) (w : World) :
    Runs (fun op w r w' => host op w = (r, w')) p w (play host p w).1 (play host p w).2.1
      (play host p w).2.2 := play_runs (fun _ _ => rfl) p w

theorem play_forall {host : (op : Op) → World → Reply op × World} {P : Event Op Reply World → Prop}
    (hhost : ∀ op w, P ⟨w, op, (host op w).1⟩) (p : Prog Op Reply α) (w : World) :
    ∀ e ∈ (play host p w).1, P e := by
  induction p generalizing w with
  | done a =>
    intro e he
    cases he
  | act op next ih =>
    intro e he
    rcases List.mem_cons.mp he with heq | hmore
    · rw [heq]
      exact hhost op w
    · exact ih _ _ e hmore

end Alone

section Scripts

/-- One move of a scripted run: a step of the environment, or the answer to
the next operation. -/
inductive Move (Op : Type) (Reply : Op → Type) (World : Type) where
  | env (f : World → World)
  | answer (f : (op : Op) → World → Option (Reply op × World))

def Move.Sound : Move Op Reply World → Prop
  | .env f => ∀ w, sem.interfere w (f w)
  | .answer f => ∀ op w r w', f op w = some (r, w') → sem.perform op w r w'

def drive : Prog Op Reply α → World → List (Move Op Reply World) →
    Option (Trace Op Reply World × Prog Op Reply α × World)
  | p, w, [] => some ([], p, w)
  | p, w, .env f :: moves => drive p (f w) moves
  | .done _, _, .answer _ :: _ => none
  | .act op next, w, .answer f :: moves =>
    match f op w with
    | none => none
    | some (r, w₁) =>
      (drive (next r) w₁ moves).map fun (trace, rest) => (⟨w, op, r⟩ :: trace, rest)

def driveCalls {Call : Type} (body : Call → Prog Op Reply α) :
    World → List (Call × List (Move Op Reply World)) →
    Option (List (Completed Call Op Reply World α) × World)
  | w, [] => some ([], w)
  | w, (c, moves) :: more =>
    match drive (body c) w moves with
    | some (trace, .done a, w₁) =>
      (driveCalls body w₁ more).map fun (calls, w') => (⟨c, w, trace, a, w₁⟩ :: calls, w')
    | _ => none

variable {sem}

theorem drive_steps {p p' : Prog Op Reply α} {w w' : World}
    {moves : List (Move Op Reply World)} {trace : Trace Op Reply World}
    (hsound : ∀ m ∈ moves, m.Sound sem) (hdrive : drive p w moves = some (trace, p', w')) :
    Steps sem p w trace p' w' := by
  induction moves generalizing p w trace with
  | nil =>
    cases hdrive
    exact .rest .refl
  | cons move moves ih =>
    have hmoves : ∀ m ∈ moves, m.Sound sem :=
      fun m hm => hsound m (List.mem_cons_of_mem _ hm)
    have hmove := hsound move List.mem_cons_self
    cases move with
    | env f => exact (ih hmoves hdrive).after (.single (hmove w))
    | answer f =>
      cases p with
      | done a => cases hdrive
      | act op next =>
        simp only [drive] at hdrive
        split at hdrive
        · cases hdrive
        · next r w₁ hanswer =>
            obtain ⟨⟨more, rest⟩, hrest, heq⟩ := Option.map_eq_some_iff.mp hdrive
            cases heq
            exact .act .refl (hmove op w r w₁ hanswer) (ih hmoves hrest)

theorem driveCalls_calls {Call : Type} {body : Call → Prog Op Reply α} {init w w' : World}
    {script : List (Call × List (Move Op Reply World))}
    {before calls : List (Completed Call Op Reply World α)}
    (hbefore : Calls sem body init before w)
    (hsound : ∀ entry ∈ script, ∀ m ∈ entry.2, m.Sound sem)
    (hdrive : driveCalls body w script = some (calls, w')) :
    Calls sem body init (before ++ calls) w' := by
  induction script generalizing before calls w with
  | nil =>
    cases hdrive
    rwa [List.append_nil]
  | cons entry more ih =>
    simp only [driveCalls] at hdrive
    split at hdrive
    · next trace a w₁ hcall =>
        obtain ⟨⟨rest, last⟩, hrest, heq⟩ := Option.map_eq_some_iff.mp hdrive
        cases heq
        have hsteps := drive_steps (hsound entry List.mem_cons_self) hcall
        have hdone := ih (hbefore.call hsteps)
          (fun e he => hsound e (List.mem_cons_of_mem _ he)) hrest
        rwa [List.append_assoc] at hdone
    · cases hdrive

theorem exists_steps {p : Prog Op Reply α} {w : World} {moves : List (Move Op Reply World)}
    {P : Trace Op Reply World → Prog Op Reply α → World → Prop} (hsound : ∀ m ∈ moves, m.Sound sem)
    (hP : ∃ out, drive p w moves = some out ∧ P out.1 out.2.1 out.2.2) :
    ∃ trace p' w', Steps sem p w trace p' w' ∧ P trace p' w' := by
  obtain ⟨⟨trace, p', w'⟩, hdrive, hP⟩ := hP
  exact ⟨trace, p', w', drive_steps hsound hdrive, hP⟩

/-- A history that a script computes is a history of the system. -/
theorem exists_calls {Call : Type} {body : Call → Prog Op Reply α} {init : World}
    {script : List (Call × List (Move Op Reply World))}
    {P : List (Completed Call Op Reply World α) → World → Prop}
    (hsound : ∀ entry ∈ script, ∀ m ∈ entry.2, m.Sound sem)
    (hP : ∃ out, driveCalls body init script = some out ∧ P out.1 out.2) :
    ∃ calls w, Calls sem body init calls w ∧ P calls w := by
  obtain ⟨⟨calls, w⟩, hdrive, hP⟩ := hP
  exact ⟨calls, w, driveCalls_calls (.start .refl) hsound hdrive, hP⟩

end Scripts

end YcAgent.Lib.Program
