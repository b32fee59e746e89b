import Mathlib.Tactic.IntervalCases
import YcAgent.Capture.JStackRun

/-!
The attempts of the thread dump worker. What it has logged and done is cut into
the attempts of each round. They are to be made in the order of the source until
one succeeds, in every round. In the code the file that `jstack -F` writes to is
never nil afterwards, so that `jhsdb` is not tried, and an error that is found
after `jstack -F` ends the worker, so that later rounds are left out.
-/

namespace YcAgent.Capture

open Go Lib.Program

abbrev TdTrace := Trace TdOp TdOp.Reply DumpDir

def upToNext : TdTrace → DumpTrace
  | [] => []
  | ⟨_, .trying _ _, _⟩ :: _ => []
  | ⟨w, .file op, r⟩ :: rest => ⟨w, op, r⟩ :: upToNext rest

/-- The attempts of the round `n`, each with what it did to the files. -/
def attemptsIn (n : Nat) : TdTrace → List (DumpWay × DumpTrace)
  | [] => []
  | ⟨_, .trying a k, _⟩ :: rest =>
    if k = n then (a, upToNext rest) :: attemptsIn n rest else attemptsIn n rest
  | ⟨_, .file _, _⟩ :: rest => attemptsIn n rest

def Event.worked : Event DumpOp DumpOp.Reply DumpDir → Bool
  | ⟨_, .combinedOutput _ _ _, out⟩ => out.err.isNone
  | _ => false

def Event.foundErr : Event DumpOp DumpOp.Reply DumpDir → Bool
  | ⟨_, .getErr, err⟩ => err.isSome
  | _ => false

/-- The command of the attempt has ended without an error. -/
def Succeeds (trace : DumpTrace) : Prop := trace.any Event.worked = true

def Misread (trace : DumpTrace) : Prop := trace.any Event.foundErr = true

/-- The ways to take a thread dump, in the order in which they are to be tried. -/
def DumpWay.order : List DumpWay := [.jattach, .tempPath, .jstack, .jstackF, .jhsdb]

/-- The attempts are made in the order given until one succeeds. -/
def InOrder : List DumpWay → List (DumpWay × DumpTrace) → Prop
  | a :: ways, [(b, trace)] => b = a ∧ (Succeeds trace ∨ ways = [])
  | a :: ways, (b, trace) :: rest => b = a ∧ ¬Succeeds trace ∧ InOrder ways rest
  | _, _ => False

def silent (trace : DumpTrace) : TdTrace := trace.map fun e => ⟨e.before, .file e.op, e.reply⟩

theorem upToNext_silent (trace : DumpTrace) (rest : TdTrace) :
    upToNext (silent trace ++ rest) = trace ++ upToNext rest := by
  induction trace with
  | nil => rfl
  | cons e trace ih => exact congrArg (e :: ·) ih

theorem attemptsIn_silent (n : Nat) (trace : DumpTrace) (rest : TdTrace) :
    attemptsIn n (silent trace ++ rest) = attemptsIn n rest := by
  induction trace with
  | nil => rfl
  | cons e trace ih => exact ih

theorem leaves_quietly {α : Type} {p : DumpProg α} {Q : TdTrace → α → Prop}
    (h : p.Leaves fun trace a => Q (silent trace) a) : (quietly p).Leaves Q := by
  induction p generalizing Q with
  | done a => exact h
  | act op next ih => exact fun w r => ih r (h w r)

/-- The trace of a round is made of its attempts. -/
inductive Script (n : Nat) : TdTrace → List (DumpWay × DumpTrace) → Prop
  | nil : Script n [] []
  | attempt (w : DumpDir) (a : DumpWay) (trace : DumpTrace) {more attempts} :
      Script n more attempts →
      Script n (⟨w, .trying a n, ()⟩ :: (silent trace ++ more)) ((a, trace) :: attempts)

theorem Script.upToNext_eq {n : Nat} {trace : TdTrace} {attempts : List (DumpWay × DumpTrace)}
    (h : Script n trace attempts) {rest : TdTrace} (hrest : upToNext rest = []) :
    upToNext (trace ++ rest) = [] := by
  cases h with
  | nil => exact hrest
  | attempt w a trace _ => rfl

theorem Script.attemptsIn_eq {n : Nat} {trace : TdTrace} {attempts : List (DumpWay × DumpTrace)}
    (h : Script n trace attempts) {rest : TdTrace} (hrest : upToNext rest = []) (k : Nat) :
    attemptsIn k (trace ++ rest) = (if n = k then attempts else []) ++ attemptsIn k rest := by
  induction h with
  | nil => simp
  | @attempt w a trace more attempts hmore ih =>
    have hnext := hmore.upToNext_eq hrest
    rw [List.cons_append, List.append_assoc]
    by_cases hk : n = k
    · simp only [attemptsIn, if_pos hk, upToNext_silent, attemptsIn_silent, hnext, ih,
        List.append_nil, List.cons_append]
    · simp only [attemptsIn, if_neg hk, attemptsIn_silent, ih]

theorem succeeds_append {first more : DumpTrace} :
    Succeeds (first ++ more) ↔ Succeeds first ∨ Succeeds more := by
  simp [Succeeds, List.any_append]

theorem misread_append {first more : DumpTrace} :
    Misread (first ++ more) ↔ Misread first ∨ Misread more := by
  simp [Misread, List.any_append]

theorem call_leaves {α : Type} {op : DumpOp} {k : op.Reply → DumpProg α}
    {Q : DumpTrace → α → Prop} (h : ∀ w r, (k r).Leaves fun trace a => Q (⟨w, op, r⟩ :: trace) a) :
    (call op >>= k).Leaves Q := h

theorem combinedOutputToFile_leaves (name : DumpFile) (cmd : DumpCmd) :
    (combinedOutputToFile name cmd).Leaves fun trace out =>
      (Succeeds trace ↔ out.1 = true) ∧ ¬Misread trace := by
  apply call_leaves
  intro w created
  cases created with
  | error e => exact ⟨Iff.rfl, Bool.false_ne_true⟩
  | ok _ =>
    apply call_leaves
    intro w out
    obtain ⟨moved, exitCode, err⟩ := out
    cases err with
    | none => exact ⟨Iff.rfl, Bool.false_ne_true⟩
    | some e =>
      apply call_leaves
      intro w _
      exact ⟨Iff.rfl, Bool.false_ne_true⟩

theorem stored_leaves (name : DumpFile) (cmd : DumpCmd) :
    (combinedOutputToFile name cmd >>= fun out => call (.setErr out.2) >>= fun _ =>
      return out.1).Leaves fun trace dumped =>
        (Succeeds trace ↔ dumped = true) ∧ ¬Misread trace := by
  apply (Prog.leaves_bind _ _ _).2
  apply (combinedOutputToFile_leaves name cmd).mono
  rintro trace ⟨dumped, err⟩ ⟨hdumped, hread⟩
  apply call_leaves
  intro w _
  exact ⟨succeeds_append.trans ((or_iff_left Bool.false_ne_true).trans hdumped),
    fun h => (misread_append.1 h).elim hread Bool.false_ne_true⟩

namespace JStack

variable (t : JStack) (name : DumpFile)

theorem viaSelf_leaves : (t.viaSelf name).Leaves fun trace dumped =>
    (Succeeds trace ↔ dumped = true) ∧ ¬Misread trace := stored_leaves name _

theorem viaTempPath_leaves : (t.viaTempPath name).Leaves fun trace dumped =>
    (Succeeds trace ↔ dumped = true) ∧ ¬Misread trace := by
  apply call_leaves
  intro w copied
  cases copied with
  | error e => exact ⟨Iff.rfl, Bool.false_ne_true⟩
  | ok tempPath =>
    apply (Prog.leaves_bind _ _ _).2
    apply (combinedOutputToFile_leaves name _).mono
    rintro trace ⟨dumped, err⟩ ⟨hdumped, hread⟩
    replace hdumped : Succeeds trace ↔ dumped = true := hdumped
    rw [← List.append_nil trace] at hdumped hread
    exact ⟨hdumped, hread⟩

theorem viaJStack_leaves : (t.viaJStack name).Leaves fun trace dumped =>
    (Succeeds trace ↔ dumped = true) ∧ ¬Misread trace := stored_leaves name _

theorem runF_leaves : (t.runF name).Leaves fun (trace : DumpTrace) _ => ¬Misread trace := by
  apply call_leaves
  intro w sought
  cases sought with
  | error e => exact Bool.false_ne_true
  | ok _ =>
    apply call_leaves
    intro w i
    split
    · apply call_leaves
      intro w sought
      cases sought with
      | error e => exact Bool.false_ne_true
      | ok _ =>
        apply call_leaves
        intro w out
        cases out.err with
        | none => exact Bool.false_ne_true
        | some e =>
          apply call_leaves
          intro w out
          exact Bool.false_ne_true
    · exact Bool.false_ne_true

/-- After a command of `jstack -F` has run without an error, the round goes on
unless an error is found nevertheless. -/
theorem viaForce_leaves : (t.viaForce name).Leaves fun trace out =>
    Succeeds trace → (out = .finished ↔ ¬Misread trace) := by
  apply call_leaves
  intro w created
  apply call_leaves
  intro w _
  apply call_leaves
  intro w err
  cases err with
  | some e =>
    apply call_leaves
    intro w _ hsucceeds
    cases hsucceeds
  | none =>
    cases created with
    | error e =>
      intro hsucceeds
      cases hsucceeds
    | ok _ =>
      apply call_leaves
      intro w written
      cases written with
      | error e =>
        apply call_leaves
        intro w _ hsucceeds
        cases hsucceeds
      | ok _ =>
        apply (Prog.leaves_bind _ _ _).2
        apply (t.runF_leaves name).mono
        intro trace err hread
        apply call_leaves
        intro w _
        apply call_leaves
        intro w err
        cases err with
        | none =>
          intro _
          apply iff_of_true rfl
          intro h
          exact (misread_append.1 h).elim hread Bool.false_ne_true
        | some e =>
          apply call_leaves
          intro w _
          apply call_leaves
          intro w _ _
          apply iff_of_false RoundEnd.noConfusion
          intro h
          exact h (misread_append.2 (.inr rfl))

theorem closeRound_leaves (n : Nat) : (closeRound n).Leaves fun trace out =>
    ¬Succeeds trace ∧ ¬Misread trace ∧ out = .finished := by
  apply call_leaves
  intro w _
  apply call_leaves
  intro w _
  exact ⟨Bool.false_ne_true, Bool.false_ne_true, rfl⟩

end JStack

open JStack (RoundEnd)

/-- Attempts made in the order given, all but the last of which have failed. If
the last has succeeded, then the round is finished unless an error was found. -/
inductive Tried : List DumpWay → List (DumpWay × DumpTrace) → RoundEnd → Prop
  | last {a ways trace out} : (Succeeds trace → (out = .finished ↔ ¬Misread trace)) →
      Tried (a :: ways) [(a, trace)] out
  | next {a ways trace attempts out} : ¬Succeeds trace → Tried ways attempts out →
      Tried (a :: ways) ((a, trace) :: attempts) out

def RoundTrace (n : Nat) (ways : List DumpWay) (trace : TdTrace) (out : RoundEnd) : Prop :=
  ∃ attempts, Script n trace attempts ∧ Tried ways attempts out

theorem attempt_leaves {α : Type} {n : Nat} {a : DumpWay} {ways : List DumpWay} {p : DumpProg α}
    {k : α → TdProg RoundEnd} (h : p.Leaves fun trace x => (k x).Leaves fun more out =>
      (∃ tail, more = silent tail ∧ (Succeeds (trace ++ tail) →
        (out = .finished ↔ ¬Misread (trace ++ tail)))) ∨
      ¬Succeeds trace ∧ RoundTrace n ways more out) :
    (trying a n >>= fun _ => quietly p >>= k).Leaves (RoundTrace n (a :: ways)) := by
  intro w _
  change (quietly p >>= k).Leaves _
  apply (Prog.leaves_bind _ _ _).2
  apply leaves_quietly
  apply h.mono
  intro trace x hx
  apply hx.mono
  intro more out hcase
  rcases hcase with ⟨tail, rfl, hlast⟩ | ⟨hfailed, attempts, hscript, htried⟩
  · refine ⟨[(a, trace ++ tail)], ?_, .last hlast⟩
    have hscript := Script.attempt (n := n) w a (trace ++ tail) .nil
    rw [List.append_nil, silent, List.map_append] at hscript
    exact hscript
  · exact ⟨_, .attempt w a trace hscript, .next hfailed htried⟩

theorem dumped_leaves {n : Nat} {a : DumpWay} {ways : List DumpWay} {p : DumpProg Bool}
    {k : Bool → TdProg RoundEnd}
    (hp : p.Leaves fun trace dumped => (Succeeds trace ↔ dumped = true) ∧ ¬Misread trace)
    (hdumped : k true = quietly (JStack.closeRound n))
    (hfailed : (k false).Leaves (RoundTrace n ways)) :
    (trying a n >>= fun _ => quietly p >>= k).Leaves (RoundTrace n (a :: ways)) := by
  apply attempt_leaves
  apply hp.mono
  intro trace dumped htrace
  obtain ⟨hsucceeds, hread⟩ := htrace
  cases dumped with
  | true =>
    rw [hdumped]
    apply leaves_quietly
    apply (JStack.closeRound_leaves n).mono
    intro tail out hclosed
    obtain ⟨_, hread', rfl⟩ := hclosed
    refine .inl ⟨tail, rfl, fun _ => iff_of_true rfl ?_⟩
    intro h
    exact (misread_append.1 h).elim hread hread'
  | false =>
    apply hfailed.mono
    intro more out hmore
    refine .inr ⟨?_, hmore⟩
    intro h
    cases hsucceeds.1 h

def DumpWay.reached : List DumpWay := [.jattach, .tempPath, .jstack, .jstackF]

namespace JStack

variable (t : JStack)

theorem forced_leaves (n : Nat) {k : Forced → TdProg RoundEnd}
    (hstopped : ∀ sent, k (.stopped sent) = .done (.stopped sent))
    (hfile : k (.file true) = quietly (closeRound n)) :
    (t.orForce false n >>= k).Leaves (RoundTrace n [.jstackF]) := by
  unfold orForce
  simp only [Bool.false_eq_true, if_false, Prog.bind_assoc]
  apply attempt_leaves
  apply (t.viaForce_leaves _).mono
  intro trace out hout
  cases out with
  | stopped sent =>
    change (k (.stopped sent)).Leaves _
    rw [hstopped]
    refine .inl ⟨[], rfl, ?_⟩
    rw [List.append_nil]
    exact hout
  | finished =>
    change (k (.file true)).Leaves _
    rw [hfile]
    apply leaves_quietly
    apply (closeRound_leaves n).mono
    intro tail out hclosed
    obtain ⟨hfailed, hread, rfl⟩ := hclosed
    refine .inl ⟨tail, rfl, ?_⟩
    rw [succeeds_append, or_iff_left hfailed, misread_append, or_iff_left hread]
    exact hout

theorem dumpRound_leaves (n : Nat) :
    (t.dumpRound n).Leaves (RoundTrace n DumpWay.reached) := by
  apply dumped_leaves (t.viaSelf_leaves _) rfl
  apply dumped_leaves (t.viaTempPath_leaves _) rfl
  apply dumped_leaves (t.viaJStack_leaves _) rfl
  exact t.forced_leaves n (fun _ => rfl) rfl

/-- What the rounds come to, by the attempts made in them: after a round that is
not finished there are no further attempts. -/
def RoundsTried : List Nat → (Nat → List (DumpWay × DumpTrace)) → Bool → Prop
  | [], _, goOn => goOn = true
  | n :: ns, attempts, goOn => ∃ out, Tried DumpWay.reached (attempts n) out ∧
      (out = .finished → RoundsTried ns attempts goOn) ∧
      (out ≠ .finished → goOn = false ∧ ∀ k ∈ ns, attempts k = [])

theorem RoundsTried.congr {ns : List Nat} {attempts attempts' : Nat → List (DumpWay × DumpTrace)}
    {goOn : Bool} (h : RoundsTried ns attempts goOn)
    (hsame : ∀ k ∈ ns, attempts' k = attempts k) : RoundsTried ns attempts' goOn := by
  induction ns with
  | nil => exact h
  | cons n ns ih =>
    obtain ⟨out, htried, hfinished, hstopped⟩ := h
    have hns : ∀ k ∈ ns, attempts' k = attempts k :=
      fun k hk => hsame k (List.mem_cons_of_mem _ hk)
    refine ⟨out, ?_, fun hout => ih (hfinished hout) hns, fun hout => ?_⟩
    · rw [hsame n List.mem_cons_self]
      exact htried
    · obtain ⟨hgoOn, hnone⟩ := hstopped hout
      exact ⟨hgoOn, fun k hk => (hns k hk).trans (hnone k hk)⟩

theorem rounds_leaves (ns : List Nat) (hns : ns.Nodup) :
    (t.rounds .one ns).Leaves fun trace goOn => upToNext trace = [] ∧
      (∀ k ∉ ns, attemptsIn k trace = []) ∧ RoundsTried ns (attemptsIn · trace) goOn := by
  induction ns with
  | nil => exact ⟨rfl, fun _ _ => rfl, rfl⟩
  | cons n ns ih =>
    obtain ⟨hn, hns⟩ := List.nodup_cons.1 hns
    apply (Prog.leaves_bind _ _ _).2
    apply (Prog.leaves_bind _ _ _).2
    apply (t.dumpRound_leaves n).mono
    intro trace out hround
    obtain ⟨attempts, hscript, htried⟩ := hround
    cases out with
    | stopped sent =>
      have hmine : ∀ k, attemptsIn k (trace ++ []) = if n = k then attempts else [] := by
        intro k
        rw [hscript.attemptsIn_eq rfl]
        exact List.append_nil _
      change upToNext ((trace ++ []) ++ []) = [] ∧ _ ∧ RoundsTried _ _ false
      rw [List.append_nil (trace ++ [])]
      refine ⟨hscript.upToNext_eq rfl, ?_, .stopped sent, ?_, nofun, fun _ => ⟨rfl, ?_⟩⟩
      · intro k hk
        have hne : n ≠ k := fun heq => hk (heq ▸ List.mem_cons_self)
        rw [hmine, if_neg hne]
      · beta_reduce
        rw [hmine, if_pos rfl]
        exact htried
      · intro k hk
        have hne : n ≠ k := fun heq => hn (heq ▸ hk)
        beta_reduce
        rw [hmine, if_neg hne]
    | finished =>
      change (t.rounds .one ns).Leaves fun more goOn => _
      apply (ih hns).mono
      intro more goOn hmore
      obtain ⟨hnext, hothers, hrest⟩ := hmore
      have hall : ∀ k, attemptsIn k (trace ++ more) =
          (if n = k then attempts else []) ++ attemptsIn k more :=
        fun k => hscript.attemptsIn_eq hnext k
      rw [List.append_nil trace]
      refine ⟨hscript.upToNext_eq hnext, ?_, .finished, ?_, fun _ => ?_, nofun⟩
      · intro k hk
        have hne : n ≠ k := fun heq => hk (heq ▸ List.mem_cons_self)
        rw [hall, if_neg hne]
        exact hothers k fun hmem => hk (List.mem_cons_of_mem _ hmem)
      · beta_reduce
        rw [hall, if_pos rfl, hothers n hn, List.append_nil]
        exact htried
      · apply hrest.congr
        intro k hk
        have hne : n ≠ k := fun heq => hn (heq ▸ hk)
        rw [hall, if_neg hne]
        rfl

end JStack

theorem Tried.ne_nil {ways : List DumpWay} {attempts : List (DumpWay × DumpTrace)} {out : RoundEnd}
    (h : Tried ways attempts out) : attempts ≠ [] := by
  cases h <;> exact List.cons_ne_nil _ _

/-- As `jhsdb` is never tried, one of the other attempts has to succeed. -/
theorem Tried.inOrder_iff {ways : List DumpWay} {attempts : List (DumpWay × DumpTrace)}
    {out : RoundEnd} (h : Tried ways attempts out) (a : DumpWay) :
    InOrder (ways ++ [a]) attempts ↔ ∃ x ∈ attempts, Succeeds x.2 := by
  induction h with
  | last hout => simp [InOrder]
  | @next b ways trace attempts out hfailed hmore ih =>
    obtain ⟨x, rest, rfl⟩ := List.exists_cons_of_ne_nil hmore.ne_nil
    rw [List.exists_mem_cons_iff]
    constructor
    · rintro ⟨_, _, hrest⟩
      exact .inr (ih.1 hrest)
    · rintro (hsucceeds | hrest)
      · exact absurd hsucceeds hfailed
      · exact ⟨rfl, hfailed, ih.2 hrest⟩

theorem Tried.finished_iff {ways : List DumpWay} {attempts : List (DumpWay × DumpTrace)}
    {out : RoundEnd} (h : Tried ways attempts out) (hsome : ∃ x ∈ attempts, Succeeds x.2) :
    out = .finished ↔ ∀ x ∈ attempts, Succeeds x.2 → ¬Misread x.2 := by
  induction h with
  | @last a ways trace out hout =>
    obtain ⟨x, hx, hsucceeds⟩ := hsome
    rw [List.mem_singleton.1 hx] at hsucceeds
    rw [hout hsucceeds, List.forall_mem_singleton]
    exact ⟨fun hread _ => hread, fun hread => hread hsucceeds⟩
  | @next b ways trace attempts out hfailed hmore ih =>
    rw [List.exists_mem_cons_iff, or_iff_right hfailed] at hsome
    rw [ih hsome, List.forall_mem_cons]
    exact ⟨fun hall => ⟨fun hsucceeds => absurd hsucceeds hfailed, hall⟩, And.right⟩

/-- In a round that is begun one of the commands succeeds, and if it is not the
last round, then no error of another goroutine is found after that command. -/
def Served (count n : Nat) (attempts : List (DumpWay × DumpTrace)) : Prop :=
  attempts ≠ [] → (∃ x ∈ attempts, Succeeds x.2) ∧
    (n < count → ∀ x ∈ attempts, Succeeds x.2 → ¬Misread x.2)

theorem RoundsTried.inOrder_iff {count i d : Nat} {attempts : Nat → List (DumpWay × DumpTrace)}
    {goOn : Bool} (h : JStack.RoundsTried (List.range' i d) attempts goOn)
    (hd : i + d ≤ count + 1) (hgoOn : goOn = true → i + d = count + 1)
    (hothers : ∀ k, i + d ≤ k → attempts k = []) :
    (∀ n, i ≤ n → n ≤ count → InOrder DumpWay.order (attempts n)) ↔
      ∀ n, i ≤ n → n ≤ count → Served count n (attempts n) := by
  induction d generalizing i with
  | zero =>
    have hend := hgoOn h
    constructor
    · intro _ n hn hcount
      omega
    · intro _ n hn hcount
      omega
  | succ d ih =>
    rw [List.range'_succ] at h
    obtain ⟨out, htried, hfinished, hstopped⟩ := h
    have hinOrder : InOrder DumpWay.order (attempts i) ↔ ∃ x ∈ attempts i, Succeeds x.2 :=
      htried.inOrder_iff .jhsdb
    cases out with
    | finished =>
      have hrest := ih (hfinished rfl) (by omega) (fun hgo => by have := hgoOn hgo; omega)
        fun k hk => hothers k (by omega)
      constructor
      · intro hall n hn hcount
        rcases Nat.eq_or_lt_of_le hn with rfl | hlt
        · intro _
          have hsome := hinOrder.1 (hall i hn hcount)
          exact ⟨hsome, fun _ => (htried.finished_iff hsome).1 rfl⟩
        · exact hrest.1 (fun n hn hcount => hall n (by omega) hcount) n hlt hcount
      · intro hall n hn hcount
        rcases Nat.eq_or_lt_of_le hn with rfl | hlt
        · exact hinOrder.2 (hall i hn hcount htried.ne_nil).1
        · exact hrest.2 (fun n hn hcount => hall n (by omega) hcount) n hlt hcount
    | stopped sent =>
      have hnone : ∀ k, i < k → attempts k = [] := by
        intro k hk
        by_cases hkd : k < i + 1 + d
        · exact (hstopped RoundEnd.noConfusion).2 k (List.mem_range'_1.2 ⟨hk, hkd⟩)
        · exact hothers k (by omega)
      constructor
      · intro hall n hn hcount
        rcases Nat.eq_or_lt_of_le hn with rfl | hlt
        · refine fun _ => ⟨hinOrder.1 (hall i hn hcount), fun hlt => ?_⟩
          have hnext := hall (i + 1) (by omega) hlt
          rw [hnone (i + 1) (Nat.lt_succ_self i)] at hnext
          exact hnext.elim
        · exact fun hne => absurd (hnone n hlt) hne
      · intro hall n hn hcount
        obtain ⟨hsome, hread⟩ := hall i (Nat.le_refl i) (by omega) htried.ne_nil
        rcases Nat.eq_or_lt_of_le hn with rfl | hlt
        · exact hinOrder.2 hsome
        · cases (htried.finished_iff hsome).2 (hread (by omega))

namespace JStack

variable (t : JStack)

/-- When all goroutines have ended, the thread dump worker has gone through its
rounds, to the last one or to one that stopped it. -/
theorem finished_rounds {w : DumpDir} {m : JMachine}
    (hm : Machine.Reaches t.perform (t.start w) m) (hfinished : m.Finished) :
    ∃ a goOn, a ≤ t.count ∧ (goOn = true → a = t.count) ∧
      Plays (t.rounds .one (List.range' 1 a)) (localLog (.worker .one) m.log) (.done goOn) := by
  obtain ⟨p, stage, a, h⟩ := t.reaches_run hm
  have hlane := h.lanes .one
  have hend : (stage .one).now t .one = .done false := hlane.now.symm.trans (hfinished _)
  have hreturned := RunAt.now_done h.sound (h.now.symm.trans (hfinished .main))
  obtain ⟨rfl, _⟩ := hreturned
  have hup : a .one + (stage .one).inHand ≤ t.count := hlane.upTo
  have hsound := hlane.sound
  obtain ⟨before, current, htrace, hbefore, hcurrent⟩ := hlane.played
  rcases RunAt.stage_done hend with ⟨_, hfalse⟩ | ⟨hgone, _⟩
  · cases hfalse
  cases hstage : stage .one with
  | gone stopped =>
    rw [hstage] at hbefore hcurrent hsound
    cases hcurrent
    rw [List.append_nil] at htrace
    refine ⟨a .one, !stopped, by omega, ?_, ?_⟩
    · intro hgoOn
      cases stopped with
      | true => cases hgoOn
      | false => exact hsound.2
    · change localLog (.worker .one) m.log = before at htrace
      rw [htrace]
      exact hbefore
  | _ =>
    rw [hstage] at hgone
    cases hgone

/-- The attempts of all rounds are made in their order until one succeeds if and
only if a command succeeds in every round that is begun, and no error of another
goroutine is found after it in a round before the last. -/
theorem attempts_in_order_iff (w : DumpDir) (m : JMachine)
    (hm : Machine.Reaches t.perform (t.start w) m) (hfinished : m.Finished) :
    (∀ n, 1 ≤ n → n ≤ t.count →
      InOrder DumpWay.order (attemptsIn n (localLog (.worker .one) m.log))) ↔
    ∀ n, 1 ≤ n → n ≤ t.count →
      Served t.count n (attemptsIn n (localLog (.worker .one) m.log)) := by
  obtain ⟨a, goOn, ha, hgoOn, hplays⟩ := t.finished_rounds hm hfinished
  have hleaves := hplays.leaves (t.rounds_leaves _ List.nodup_range')
  obtain ⟨_, hothers, htried⟩ := hleaves
  rw [List.append_nil] at hothers htried
  apply RoundsTried.inOrder_iff htried (by omega) (fun hgo => by have := hgoOn hgo; omega)
  intro k hk
  apply hothers
  intro hmem
  have hlt := (List.mem_range'_1.1 hmem).2
  omega

/-- All commands fail in the first round. Neither is `jhsdb` tried in it, nor is
anything tried in the second. -/
theorem two_rounds_of_failures : ∃ m,
    let t : JStack := ⟨"yc", "/opt/java", 7, 2⟩
    Machine.Reaches t.perform (t.start ⟨∅, none⟩) m ∧ m.Finished ∧
      ¬InOrder DumpWay.order (attemptsIn 1 (localLog (.worker .one) m.log)) ∧
      attemptsIn 2 (localLog (.worker .one) m.log) = [] := by
  have hfailed : ∃ m, afterTwo (some "exit status 1") (twoRounds 32 0 0) = some m ∧ m.Finished ∧
      ¬InOrder DumpWay.order (attemptsIn 1 (localLog (.worker .one) m.log)) ∧
      attemptsIn 2 (localLog (.worker .one) m.log) = [] := by
    refine ⟨_, rfl, finished_iff.2 ⟨rfl, rfl, rfl⟩, ?_, rfl⟩
    · rintro ⟨_, _, _, _, _, _, _, hlast | hnone⟩
      · cases hlast
      · cases hnone
  obtain ⟨m, hrun, hends⟩ := hfailed
  exact ⟨m, afterTwo_reaches hrun, hends⟩

theorem two_rounds_of_dumps : ∃ m, afterTwo none (twoRounds 9 9 2) = some m ∧ m.Finished ∧
    ∀ n, 1 ≤ n → n ≤ 2 → Served 2 n (attemptsIn n (localLog (.worker .one) m.log)) := by
  refine ⟨_, rfl, finished_iff.2 ⟨rfl, rfl, rfl⟩, ?_⟩
  · intro n hn hcount _
    interval_cases n
    · refine ⟨⟨_, List.mem_cons_self, rfl⟩, fun _ x hx _ => ?_⟩
      rw [List.mem_singleton.1 hx]
      exact Bool.false_ne_true
    · refine ⟨⟨_, List.mem_cons_self, rfl⟩, fun _ x hx _ => ?_⟩
      rw [List.mem_singleton.1 hx]
      exact Bool.false_ne_true

theorem attempts_in_order_two_rounds : ∃ m,
    let t : JStack := ⟨"yc", "/opt/java", 7, 2⟩
    Machine.Reaches t.perform (t.start ⟨∅, none⟩) m ∧ m.Finished ∧
      ∀ n, 1 ≤ n → n ≤ 2 →
        InOrder DumpWay.order (attemptsIn n (localLog (.worker .one) m.log)) := by
  obtain ⟨m, hrun, hfinished, hserved⟩ := two_rounds_of_dumps
  have hreaches := afterTwo_reaches hrun
  exact ⟨m, hreaches, hfinished, (attempts_in_order_iff _ _ m hreaches hfinished).2 hserved⟩

end JStack

end YcAgent.Capture
