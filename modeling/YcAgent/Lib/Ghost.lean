import YcAgent.Lib.Program

/-!
Programs checked against a ghost state, and two programs side by side. A ghost
state advances with the operations of one program: it says which operations
are allowed next and which replies are to be expected. `Follows` checks a
program against it, by recursion on the program. If the ghost state describes
the world, whatever the environment does in between, then every operation of a
run was allowed when it was performed. `Pair` are the moments of two programs
that take turns in any order; each of them sees the other as its environment.
-/

namespace YcAgent.Lib.Program

variable {Op : Type} {Reply : Op → Type} {World G α β γ : Type}

structure Ghost (Op : Type) (Reply : Op → Type) (G : Type) where
  allowed : G → Op → Prop
  possible : G → (op : Op) → Reply op → Prop
  after : G → (op : Op) → Reply op → G

namespace Prog

/-- From the ghost state `g` on, the program performs allowed operations only,
and ends in a ghost state that satisfies `Q`. -/
def Follows (ghost : Ghost Op Reply G) : Prog Op Reply α → G → (α → G → Prop) → Prop
  | .done a, g, Q => Q a g
  | .act op next, g, Q => ghost.allowed g op ∧
      ∀ r, ghost.possible g op r → (next r).Follows ghost (ghost.after g op r) Q

variable {ghost : Ghost Op Reply G}

@[simp] theorem follows_bind (p : Prog Op Reply α) (k : α → Prog Op Reply β) (g : G)
    (Q : β → G → Prop) :
    (p >>= k).Follows ghost g Q ↔
      p.Follows ghost g fun a g' => (k a).Follows ghost g' Q := by
  induction p generalizing g with
  | done a => rfl
  | act op next ih =>
    exact and_congr_right fun _ => forall_congr' fun r => imp_congr_right fun _ => ih r _

theorem Follows.mono {p : Prog Op Reply α} {g : G} {P Q : α → G → Prop}
    (h : p.Follows ghost g P) (hPQ : ∀ a g, P a g → Q a g) : p.Follows ghost g Q := by
  induction p generalizing g with
  | done a => exact hPQ a g h
  | act op next ih => exact ⟨h.1, fun r hr => ih r (h.2 r hr)⟩

/-- A program carried out by programs over other operations: the ghost states
of the two stay related if those of each operation do. -/
theorem Follows.interpret {Op' G' : Type} {Reply' : Op' → Type} {ghost' : Ghost Op' Reply' G'}
    {handle : (op : Op) → Prog Op' Reply' (Reply op)} (related : G → G' → Prop)
    (hhandle : ∀ op g g', ghost.allowed g op → related g g' →
      (handle op).Follows ghost' g' fun r g'' =>
        ghost.possible g op r ∧ related (ghost.after g op r) g'')
    {p : Prog Op Reply α} {g : G} {g' : G'} {Q : α → G → Prop} (h : p.Follows ghost g Q)
    (hrelated : related g g') :
    (p.interpret handle).Follows ghost' g' fun a g'' => ∃ g₁, Q a g₁ ∧ related g₁ g'' := by
  induction p generalizing g g' with
  | done a => exact ⟨g, h, hrelated⟩
  | act op next ih =>
    rw [Prog.interpret, follows_bind]
    apply (hhandle op g g' h.1 hrelated).mono
    intro r g'' hr
    exact ih r (h.2 r hr.1) hr.2

/-- The rule of a loop: each round keeps the invariant. -/
theorem follows_forM {f : γ → Prog Op Reply PUnit} (inv : G → Prop)
    (hround : ∀ x g, inv g → (f x).Follows ghost g fun _ => inv) (xs : List γ) {g : G}
    (hstart : inv g) : (xs.forM f).Follows ghost g fun _ => inv := by
  induction xs generalizing g with
  | nil => exact hstart
  | cons x xs ih =>
    change (f x >>= fun _ => xs.forM f).Follows ghost g _
    rw [follows_bind]
    apply (hround x g hstart).mono
    intro _ g' hg'
    exact ih hg'

end Prog

/-- The ghost state after the operations of a trace. -/
def Ghost.afterAll (ghost : Ghost Op Reply G) (g : G) (trace : Trace Op Reply World) : G :=
  trace.foldl (fun g e => ghost.after g e.op e.reply) g

/-- The view describes the world by the ghost state through every step. -/
structure Ghost.Describes (ghost : Ghost Op Reply G) (sem : Semantics Op Reply World)
    (view : World → G → Prop) : Prop where
  perform : ∀ op w r w' g, ghost.allowed g op → view w g → sem.perform op w r w' →
    ghost.possible g op r ∧ view w' (ghost.after g op r)
  interfere : ∀ w w' g, view w g → sem.interfere w w' → view w' g

section Run

variable {ghost : Ghost Op Reply G} {sem : Semantics Op Reply World} {view : World → G → Prop}
variable {w w' : World} {g : G} {trace : Trace Op Reply World}

theorem Ghost.Describes.interferes (hview : ghost.Describes sem view) (h : view w g)
    (hstar : sem.Interferes w w') : view w' g := by
  induction hstar with
  | refl => exact h
  | tail _ hstep ih => exact hview.interfere _ _ g ih hstep

/-- Every operation of a run was allowed where it was performed, and a program
that has returned meets its postcondition. -/
theorem Steps.of_follows (hview : ghost.Describes sem view) {p p' : Prog Op Reply α}
    {Q : α → G → Prop} (hp : p.Follows ghost g Q) (h : view w g)
    (hsteps : Steps sem p w trace p' w') :
    (∀ before e rest, trace = before ++ e :: rest →
      ghost.allowed (ghost.afterAll g before) e.op ∧ view e.before (ghost.afterAll g before)) ∧
    view w' (ghost.afterAll g trace) ∧ ∀ a, p' = .done a → Q a (ghost.afterAll g trace) := by
  induction hsteps generalizing g with
  | rest hstar =>
    refine ⟨?_, hview.interferes h hstar, ?_⟩
    · intro before e rest heq
      simp at heq
    · rintro a rfl
      exact hp
  | act hstar hperform _ ih =>
    have hhere := hview.interferes h hstar
    obtain ⟨hpossible, hnext⟩ := hview.perform _ _ _ _ g hp.1 hhere hperform
    obtain ⟨hmore, hend, hpost⟩ := ih (hp.2 _ hpossible) hnext
    refine ⟨?_, hend, hpost⟩
    intro before e rest heq
    cases before with
    | nil =>
      cases heq
      exact ⟨hp.1, hhere⟩
    | cons first before =>
      cases heq
      exact hmore before e rest rfl

theorem Steps.follows_rest (hview : ghost.Describes sem view) {p p' : Prog Op Reply α}
    {Q : α → G → Prop} (hp : p.Follows ghost g Q) (h : view w g)
    (hsteps : Steps sem p w trace p' w') : p'.Follows ghost (ghost.afterAll g trace) Q := by
  induction hsteps generalizing g with
  | rest _ => exact hp
  | act hstar hperform _ ih =>
    obtain ⟨hpossible, hnext⟩ :=
      hview.perform _ _ _ _ g hp.1 (hview.interferes h hstar) hperform
    exact ih (hp.2 _ hpossible) hnext

end Run

section Pair

inductive Side where
  | left
  | right
  deriving DecidableEq, Repr

variable (perform : (op : Op) → World → Reply op → World → Prop)

/-- `Pair p q w trace p' q' w'`: started in `w`, the programs `p` and `q` have
performed the operations of `trace` and have `p'` and `q'` left to do. -/
inductive Pair : Prog Op Reply α → Prog Op Reply β → World →
    List (Side × Event Op Reply World) → Prog Op Reply α → Prog Op Reply β → World → Prop
  | rest {p q w} : Pair p q w [] p q w
  | left {op next q w r w₁ trace p' q' w'} : perform op w r w₁ →
      Pair (next r) q w₁ trace p' q' w' →
      Pair (.act op next) q w ((.left, ⟨w, op, r⟩) :: trace) p' q' w'
  | right {p op next w r w₁ trace p' q' w'} : perform op w r w₁ →
      Pair p (next r) w₁ trace p' q' w' →
      Pair p (.act op next) w ((.right, ⟨w, op, r⟩) :: trace) p' q' w'

def ofSide (side : Side) (trace : List (Side × Event Op Reply World)) : Trace Op Reply World :=
  trace.filterMap fun (s, e) => if s = side then some e else none

variable {perform}

theorem Pair.left_steps {p p' : Prog Op Reply α} {q q' : Prog Op Reply β} {w w' : World}
    {trace : List (Side × Event Op Reply World)} (mine : Event Op Reply World → Prop)
    (interfere : World → World → Prop) (hpair : Pair perform p q w trace p' q' w')
    (hmine : ∀ e, (Side.left, e) ∈ trace → mine e)
    (hother : ∀ e w₁, (Side.right, e) ∈ trace → perform e.op e.before e.reply w₁ →
      interfere e.before w₁) :
    Steps ⟨fun op w r w' => perform op w r w' ∧ mine ⟨w, op, r⟩, interfere⟩ p w
      (ofSide .left trace) p' w' := by
  induction hpair with
  | rest => exact .rest .refl
  | left hperform _ ih =>
    have hmore := ih (fun e he => hmine e (List.mem_cons_of_mem _ he))
      fun e w₁ he => hother e w₁ (List.mem_cons_of_mem _ he)
    exact .act .refl ⟨hperform, hmine _ List.mem_cons_self⟩ hmore
  | right hperform _ ih =>
    have hmore := ih (fun e he => hmine e (List.mem_cons_of_mem _ he))
      fun e w₁ he => hother e w₁ (List.mem_cons_of_mem _ he)
    exact hmore.after (.single (hother _ _ List.mem_cons_self hperform))

def Side.other : Side → Side
  | .left => .right
  | .right => .left

theorem Pair.swap {p p' : Prog Op Reply α} {q q' : Prog Op Reply β} {w w' : World}
    {trace : List (Side × Event Op Reply World)} (hpair : Pair perform p q w trace p' q' w') :
    Pair perform q p w (trace.map fun (s, e) => (s.other, e)) q' p' w' := by
  induction hpair with
  | rest => exact .rest
  | left hperform _ ih => exact .right hperform ih
  | right hperform _ ih => exact .left hperform ih

theorem ofSide_swap (side : Side) (trace : List (Side × Event Op Reply World)) :
    ofSide side.other (trace.map fun (s, e) => (s.other, e)) = ofSide side trace := by
  rw [ofSide, ofSide, List.filterMap_map]
  congr 1
  funext ⟨s, e⟩
  cases s <;> cases side <;> rfl

theorem Pair.right_steps {p p' : Prog Op Reply α} {q q' : Prog Op Reply β} {w w' : World}
    {trace : List (Side × Event Op Reply World)} (hpair : Pair perform p q w trace p' q' w') :
    Steps ⟨perform, fun _ _ => True⟩ q w (ofSide .right trace) q' w' := by
  have hsteps := hpair.swap.left_steps (fun _ => True) (fun _ _ => True) (fun _ _ => trivial)
    fun _ _ _ _ => trivial
  rw [← ofSide_swap]
  simp only [and_true] at hsteps
  exact hsteps

theorem Pair.of_nil {p p' : Prog Op Reply α} {q q' : Prog Op Reply β} {w w' : World}
    (hpair : Pair perform p q w [] p' q' w') : w' = w := by
  cases hpair
  rfl

theorem Pair.perform_last {p p' : Prog Op Reply α} {q q' : Prog Op Reply β} {w w' : World}
    {trace : List (Side × Event Op Reply World)} {side : Side} {e : Event Op Reply World}
    (hpair : Pair perform p q w trace p' q' w') (hlast : trace.getLast? = some (side, e)) :
    perform e.op e.before e.reply w' := by
  induction hpair with
  | rest => cases hlast
  | @left _ _ _ _ _ _ more _ _ _ hperform hmore ih
  | @right _ _ _ _ _ _ more _ _ _ hperform hmore ih =>
    cases more with
    | nil =>
      cases hlast
      rw [hmore.of_nil]
      exact hperform
    | cons next more => exact ih hlast

/-- What no operation undoes holds on from the world an operation found it
in. -/
theorem Pair.stable {P : World → Prop} (hP : ∀ op w r w', P w → perform op w r w' → P w')
    {p p' : Prog Op Reply α} {q q' : Prog Op Reply β} {w w' : World}
    {trace : List (Side × Event Op Reply World)} (hpair : Pair perform p q w trace p' q' w')
    (h : P w ∨ ∃ entry ∈ trace, P entry.2.before) : P w' := by
  induction hpair with
  | rest =>
    rcases h with h | ⟨entry, hmem, _⟩
    · exact h
    · cases hmem
  | left hperform _ ih | right hperform _ ih =>
    apply ih
    rcases h with h | ⟨entry, hmem, h⟩
    · exact .inl (hP _ _ _ _ h hperform)
    · rcases List.mem_cons.mp hmem with rfl | hmem
      · exact .inl (hP _ _ _ _ h hperform)
      · exact .inr ⟨entry, hmem, h⟩

/-- What no operation undoes holds on from an operation that brings it about. -/
theorem Pair.brought_about {P : World → Prop}
    (hP : ∀ op w r w', P w → perform op w r w' → P w')
    {p p' : Prog Op Reply α} {q q' : Prog Op Reply β} {w w' : World}
    {trace : List (Side × Event Op Reply World)} (hpair : Pair perform p q w trace p' q' w')
    {entry : Side × Event Op Reply World} (hentry : entry ∈ trace)
    (h : ∀ w₁, perform entry.2.op entry.2.before entry.2.reply w₁ → P w₁) : P w' := by
  induction hpair with
  | rest => cases hentry
  | left hperform hmore ih | right hperform hmore ih =>
    rcases List.mem_cons.mp hentry with rfl | hlater
    · exact hmore.stable hP (.inl (h _ hperform))
    · exact ih hlater

theorem Pair.append {p p₁ p' : Prog Op Reply α} {q q₁ q' : Prog Op Reply β} {w w₁ w' : World}
    {trace more : List (Side × Event Op Reply World)} (h : Pair perform p q w trace p₁ q₁ w₁)
    (hmore : Pair perform p₁ q₁ w₁ more p' q' w') :
    Pair perform p q w (trace ++ more) p' q' w' := by
  induction h with
  | rest => exact hmore
  | left hperform _ ih => exact .left hperform (ih hmore)
  | right hperform _ ih => exact .right hperform (ih hmore)

/-- Beside a program that has returned, all operations are those of the other. -/
theorem Pair.of_done_right {p p' : Prog Op Reply α} {b : β} {q' : Prog Op Reply β} {w w' : World}
    {trace : List (Side × Event Op Reply World)} (h : Pair perform p (.done b) w trace p' q' w') :
    q' = .done b ∧ ∀ entry ∈ trace, entry.1 = .left := by
  generalize hq : (Prog.done b : Prog Op Reply β) = q at h
  induction h with
  | rest => exact ⟨rfl, fun entry hentry => by cases hentry⟩
  | left _ _ ih =>
    obtain ⟨hdone, hleft⟩ := ih hq
    refine ⟨hdone, fun entry hentry => ?_⟩
    rcases List.mem_cons.mp hentry with rfl | hlater
    · rfl
    · exact hleft entry hlater
  | right => cases hq

theorem Pair.of_done {a : α} {b : β} {p' : Prog Op Reply α} {q' : Prog Op Reply β} {w w' : World}
    {trace : List (Side × Event Op Reply World)}
    (h : Pair perform (.done a) (.done b) w trace p' q' w') :
    trace = [] ∧ p' = .done a ∧ w' = w := by
  cases h
  exact ⟨rfl, rfl, rfl⟩

theorem mem_ofSide {side : Side} {e : Event Op Reply World}
    {trace : List (Side × Event Op Reply World)} :
    e ∈ ofSide side trace ↔ (side, e) ∈ trace := by
  simp [ofSide]

theorem ofSide_getLast? {side : Side} {e : Event Op Reply World}
    {trace : List (Side × Event Op Reply World)} (hlast : trace.getLast? = some (side, e)) :
    (ofSide side trace).getLast? = some e := by
  obtain ⟨before, rfl⟩ := List.getLast?_eq_some_iff.mp hlast
  simp [ofSide]

def playPair (host : (op : Op) → World → Option (Reply op × World)) : List Side →
    Prog Op Reply α → Prog Op Reply β → World →
    Option (List (Side × Event Op Reply World) × Prog Op Reply α × Prog Op Reply β × World)
  | [], p, q, w => some ([], p, q, w)
  | .left :: turns, .act op next, q, w =>
    match host op w with
    | none => none
    | some (r, w₁) => (playPair host turns (next r) q w₁).map fun (trace, rest) =>
      ((.left, ⟨w, op, r⟩) :: trace, rest)
  | .right :: turns, p, .act op next, w =>
    match host op w with
    | none => none
    | some (r, w₁) => (playPair host turns p (next r) w₁).map fun (trace, rest) =>
      ((.right, ⟨w, op, r⟩) :: trace, rest)
  | .left :: _, .done _, _, _ => none
  | .right :: _, _, .done _, _ => none

theorem playPair_pair {host : (op : Op) → World → Option (Reply op × World)}
    (hhost : ∀ op w r w', host op w = some (r, w') → perform op w r w') {turns : List Side}
    {p p' : Prog Op Reply α} {q q' : Prog Op Reply β} {w w' : World}
    {trace : List (Side × Event Op Reply World)}
    (hplay : playPair host turns p q w = some (trace, p', q', w')) :
    Pair perform p q w trace p' q' w' := by
  induction turns generalizing p q w trace with
  | nil =>
    cases hplay
    exact .rest
  | cons side turns ih =>
    cases side with
    | left =>
      cases p with
      | done a => cases hplay
      | act op next =>
        simp only [playPair] at hplay
        split at hplay
        · cases hplay
        · next r w₁ hanswer =>
            obtain ⟨⟨more, rest⟩, hrest, heq⟩ := Option.map_eq_some_iff.mp hplay
            cases heq
            exact .left (hhost op w r w₁ hanswer) (ih hrest)
    | right =>
      cases q with
      | done b => cases hplay
      | act op next =>
        simp only [playPair] at hplay
        split at hplay
        · cases hplay
        · next r w₁ hanswer =>
            obtain ⟨⟨more, rest⟩, hrest, heq⟩ := Option.map_eq_some_iff.mp hplay
            cases heq
            exact .right (hhost op w r w₁ hanswer) (ih hrest)

end Pair

end YcAgent.Lib.Program
