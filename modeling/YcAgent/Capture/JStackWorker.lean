import YcAgent.Capture.JStackRounds

/-!
A worker of `JStack.Run`: where it is in a pass of its loop, and what is in its
two channels, by the numbers of rounds that were sent to it, answered by it and
taken from it. Each of its steps brings it closer to its end, and it has a step
as long as there is a round to do or its channel is closed. A worker that has
stopped early is told apart from one that has seen its channel closed.
-/

namespace YcAgent.Capture

open Go Lib.Program

namespace JStack

variable (t : JStack)

/-- A worker waits for a round, is about to, is in the middle of one, is about to
close its channel, or has left. -/
inductive Stage where
  | idle
  | again
  | busy (rest : TdProg Report) (k : Nat)
  | leaving (stopped : Bool)
  | gone (stopped : Bool)

namespace Stage

def now (t : JStack) (l : Lane) : Stage → JProg Bool
  | idle => t.workerLoop l
  | again => .done true
  | busy rest _ => rest.local >>= answer l
  | leaving _ => leave l
  | gone _ => .done false

def inHand : Stage → Nat
  | busy _ _ => 1
  | _ => 0

def isGone : Stage → Bool
  | gone _ => true
  | _ => false

def stopped : Stage → Bool
  | leaving stopped => stopped
  | gone stopped => stopped
  | _ => false

/-- How many steps the worker has left, at most, when it has answered `a`
rounds. -/
def weight (count a : Nat) : Stage → Nat
  | idle => (longest + 3) * (count - a) + 3
  | again => (longest + 3) * (count - a) + 4
  | busy _ k => (longest + 3) * (count - (a + 1)) + 5 + k
  | leaving _ => 2
  | gone _ => 0

/-- A worker leaves because its channel is closed and all `s` rounds are answered,
or has stopped early. -/
def Sound (l : Lane) (a s : Nat) (shut : Bool) : Stage → Prop
  | idle => True
  | again => True
  | busy rest k => rest.Within k ∧ k ≤ longest ∧ (l = .two → rest.Ensures fun r => r.goOn = true)
  | leaving stopped => if stopped then l = .one else shut = true ∧ a = s
  | gone stopped => if stopped then l = .one else shut = true ∧ a = s

def InRound (t : JStack) (l : Lane) (n : Nat) :
    Stage → Trace TdOp TdOp.Reply DumpDir → Prop
  | busy rest _, trace => Plays (t.laneRound l n) trace rest
  | _, trace => trace = []

end Stage

/-- What belongs to a worker: itself, its two channels and what it has done. -/
structure LaneView where
  routine : Routine JOp JReply
  toDo : List Nat
  answers : Nat
  shut : Bool
  ended : Bool
  trace : Trace TdOp TdOp.Reply DumpDir

def laneView (m : JMachine) (l : Lane) : LaneView where
  routine := m.routines (.worker l)
  toDo := m.world.buffer (.b l)
  answers := (m.world.buffer (.e l)).length
  shut := m.world.closed (.b l)
  ended := m.world.closed (.e l)
  trace := localLog (.worker l) m.log

/-- A worker that was sent `s` rounds, has answered `a` of them, of which the main
loop has taken `r`. -/
structure LaneAt (t : JStack) (l : Lane) (v : LaneView) (s r : Nat) (stage : Stage) (a : Nat) :
    Prop where
  body : v.routine.body = t.workerLoop l
  now : v.routine.now = stage.now t l
  toDo : v.toDo = List.range' (a + stage.inHand + 1) (s - (a + stage.inHand))
  upTo : a + stage.inHand ≤ s
  within : s ≤ t.count
  answers : v.answers = a - r
  taken : v.ended = false → r ≤ a
  ended : v.ended = stage.isGone
  sound : stage.Sound l a s v.shut
  played : ∃ before trace, v.trace = before ++ trace ∧
    Plays (t.rounds l (List.range' 1 a)) before (.done (!stage.stopped)) ∧
    stage.InRound t l (a + 1) trace

namespace LaneAt

variable {t} {l : Lane} {v : LaneView} {s r a : Nat} {stage : Stage}

theorem sent (h : LaneAt t l v s r stage a) (hs : s < t.count) (hshut : v.shut = false) :
    LaneAt t l { v with toDo := v.toDo ++ [s + 1] } (s + 1) r stage a where
  body := h.body
  now := h.now
  toDo := by
    have hup := h.upTo
    have hlen : s + 1 - (a + stage.inHand) = s - (a + stage.inHand) + 1 := by omega
    have hlast : a + stage.inHand + 1 + (s - (a + stage.inHand)) = s + 1 := by omega
    rw [hlen, List.range'_concat, Nat.one_mul, hlast, h.toDo]
  upTo := Nat.le_succ_of_le h.upTo
  within := hs
  answers := h.answers
  taken := h.taken
  ended := h.ended
  sound := by
    have hsound := h.sound
    cases stage with
    | leaving stopped => cases stopped <;> simp_all [Stage.Sound]
    | gone stopped => cases stopped <;> simp_all [Stage.Sound]
    | _ => exact hsound
  played := h.played

theorem took (h : LaneAt t l v s r stage a) (hv : v.answers ≠ 0 ∨ v.ended = true) :
    LaneAt t l { v with answers := v.answers - 1 } s (r + 1) stage a :=
  { h with
    answers := by
      have hanswers := h.answers
      change v.answers - 1 = a - (r + 1)
      omega
    taken := by
      intro hended
      have hanswers := h.answers
      rcases hv with hv | hv
      · omega
      · exact absurd (hended.symm.trans hv) (by decide) }

theorem shut (h : LaneAt t l v s r stage a) : LaneAt t l { v with shut := true } s r stage a :=
  { h with
    sound := by
      have hsound := h.sound
      cases stage with
      | leaving stopped => cases stopped <;> simp_all [Stage.Sound]
      | gone stopped => cases stopped <;> simp_all [Stage.Sound]
      | _ => exact hsound }

end LaneAt

def performed (m : JMachine) (i : JWho) (op : JOp) (r : JReply op) (p : JProg Bool)
    (w : ChanState JVal DumpDir) : JMachine :=
  ⟨m.put i p, w, m.log ++ [(i, ⟨m.world, op, r⟩)]⟩

/-- The operations of a worker are on its own channels, and it does not close the
one it receives from. -/
def OwnOp (l : Lane) (op : JOp) : Prop :=
  op.chan = none ∨ op = .recv (.b l) ∨ op.chan = some (.e l)

theorem OwnOp.chan_ne {l j : Lane} {op : JOp} (h : OwnOp l op) (hj : j ≠ l) :
    op.chan ≠ some (.b j) ∧ op.chan ≠ some (.e j) := by
  rcases h with h | rfl | h
  · simp [h]
  · simp [ChanOp.chan, Ne.symm hj]
  · simp [h, Ne.symm hj]

theorem OwnOp.keeps_open {t : JStack} {l j : Lane} {op : JOp} {reply : JReply op}
    {w w' : ChanState JVal DumpDir} (h : OwnOp l op) (hperform : t.perform op w reply w') :
    w'.closed (.b j) = w.closed (.b j) := by
  rcases h with h | rfl | h
  · exact (ChanPerform.frame hperform (by simp [h])).2
  · cases reply with
    | none =>
      obtain ⟨_, _, rfl⟩ := hperform
      rfl
    | some n =>
      obtain ⟨rest, _, rfl⟩ := hperform
      rfl
  · exact (ChanPerform.frame hperform (by simp [h])).2

section View

variable {t} {l : Lane} {m : JMachine} {i : JWho} {op : JOp} {reply : JReply op}
  {p : JProg Bool} {w : ChanState JVal DumpDir}

theorem LaneAt.own {s r a : Nat} {stage : Stage}
    {trace : Trace TdOp TdOp.Reply DumpDir}
    (htrace : localLog (.worker l) (m.log ++ [(.worker l, ⟨m.world, op, reply⟩)]) = trace)
    (h : LaneAt t l ⟨⟨(m.routines (.worker l)).body, p⟩, w.buffer (.b l),
      (w.buffer (.e l)).length, w.closed (.b l), w.closed (.e l), trace⟩ s r stage a) :
    LaneAt t l (laneView (performed m (.worker l) op reply p w) l) s r stage a := by
  simp only [laneView, performed]
  rwa [Machine.put_self, htrace]

theorem laneView_frame (hi : i ≠ .worker l) (hperform : t.perform op m.world reply w)
    (hb : op.chan ≠ some (.b l)) (he : op.chan ≠ some (.e l)) :
    laneView (performed m i op reply p w) l = laneView m l := by
  obtain ⟨hbuffer, hclosed⟩ := ChanPerform.frame hperform hb
  obtain ⟨hanswers, hended⟩ := ChanPerform.frame hperform he
  simp only [laneView, performed]
  rw [Machine.put_of_ne hi.symm, hbuffer, hclosed, hanswers, hended, localLog_of_ne _ hi]

end View

section Worker

variable {t} {l : Lane} {m : JMachine} {s r a : Nat} {stage : Stage}

theorem LaneAt.again (h : LaneAt t l (laneView m l) s r .again a) :
    LaneAt t l (laneView ⟨m.put (.worker l) (m.routines (.worker l)).body, m.world, m.log⟩ l)
      s r .idle a :=
  { h with
    body := by
      change (m.put (.worker l) _ (.worker l)).body = _
      rw [Machine.put_self]
      exact h.body
    now := by
      change (m.put (.worker l) _ (.worker l)).now = _
      rw [Machine.put_self]
      exact h.body }

theorem LaneAt.takes (h : LaneAt t l (laneView m l) s r .idle a) {n : Nat} {rest : List Nat}
    (hbuffer : m.world.buffer (.b l) = n :: rest) :
    a < t.count ∧ LaneAt t l (laneView (performed m (.worker l) (.recv (.b l)) (some n)
      ((t.laneRound l n).local >>= answer l) (m.world.put (.b l) rest)) l)
      s r (.busy (t.laneRound l n) longest) a := by
  have htoDo : n :: rest = List.range' (a + 1) (s - a) := hbuffer.symm.trans h.toDo
  have hup := h.within
  obtain ⟨k, hk⟩ : ∃ k, s - a = k + 1 := by
    apply Nat.exists_eq_succ_of_ne_zero
    intro hzero
    rw [hzero] at htoDo
    cases htoDo
  rw [hk, List.range'_succ] at htoDo
  obtain ⟨rfl, rfl⟩ := List.cons.inj htoDo
  obtain ⟨before, trace, htrace, hbefore, hnone⟩ := h.played
  apply And.intro (by omega)
  apply LaneAt.own (localLog_chan m.log (by exact Option.some_ne_none _) _)
  exact {
    body := h.body
    now := rfl
    toDo := by
      have hrest : s - (a + 1) = k := by omega
      simp [Stage.inHand, hrest]
    upTo := by
      change a + 1 ≤ s
      omega
    within := h.within
    answers := by simpa [laneView] using h.answers
    taken := h.taken
    ended := h.ended
    sound := by
      refine ⟨t.laneRound_within l _, Nat.le_refl _, ?_⟩
      rintro rfl
      exact t.laneRound_goes_on _
    played := by
      refine ⟨before, [], ?_, hbefore, .start⟩
      rw [← hnone]
      exact htrace }

theorem LaneAt.sees (h : LaneAt t l (laneView m l) s r .idle a)
    (hbuffer : m.world.buffer (.b l) = []) (hclosed : m.world.closed (.b l) = true) :
    LaneAt t l (laneView (performed m (.worker l) (.recv (.b l)) none (leave l) m.world) l)
      s r (.leaving false) a := by
  have htoDo : [] = List.range' (a + 1) (s - a) := hbuffer.symm.trans h.toDo
  have hup : a ≤ s := h.upTo
  have hall : a = s := by
    have hlen := congrArg List.length htoDo
    rw [List.length_range', List.length_nil] at hlen
    omega
  apply LaneAt.own (localLog_chan m.log (by exact Option.some_ne_none _) _)
  exact {
    h with
    body := h.body
    now := rfl
    sound := ⟨hclosed, hall⟩
    played := h.played }

theorem LaneAt.works {op : TdOp} {next : op.Reply → TdProg Report} {k : Nat} (reply : op.Reply)
    (w : DumpDir) (h : LaneAt t l (laneView m l) s r (.busy (.act op next) (k + 1)) a) :
    LaneAt t l (laneView (performed m (.worker l) (.act op) reply
      ((next reply).local >>= answer l) { m.world with world := w }) l)
      s r (.busy (next reply) k) a := by
  obtain ⟨hwithin, hk, hgoOn⟩ := h.sound
  obtain ⟨before, trace, htrace, hbefore, hround⟩ := h.played
  have hround' : Plays (t.laneRound l (a + 1)) (trace ++ [⟨m.world.world, op, reply⟩])
    (next reply) := .step _ _ hround
  apply LaneAt.own (localLog_act m.log op reply)
  exact {
    h with
    body := h.body
    now := rfl
    sound := ⟨hwithin reply, by omega, fun htwo => hgoOn htwo reply⟩
    played := by
      refine ⟨before, _, ?_, hbefore, hround'⟩
      rw [← List.append_assoc]
      exact congrArg (· ++ _) htrace }

theorem LaneAt.reports {report : Report} {k : Nat}
    (h : LaneAt t l (laneView m l) s r (.busy (.done report) k) a) :
    LaneAt t l (laneView (performed m (.worker l) (.send (.e l) report.value) ()
      (if report.goOn then .done true else leave l)
      (m.world.put (.e l) (m.world.buffer (.e l) ++ [report.value]))) l)
      s r (if report.goOn then .again else .leaving true) (a + 1) := by
  have htaken := h.taken h.ended
  obtain ⟨before, trace, htrace, hbefore, hround⟩ := h.played
  have hplayed : Plays (t.rounds l (List.range' 1 (a + 1))) (before ++ trace)
      (.done report.goOn) := by
    rw [List.range'_concat, Nat.one_mul, Nat.add_comm 1 a, rounds_concat]
    exact (hbefore.bind _).trans (Plays.bind hround _)
  obtain ⟨value, goOn⟩ := report
  have hanswers : (m.world.buffer (.e l) ++ [value]).length = a + 1 - r := by
    have hlen := h.answers
    change (m.world.buffer (.e l)).length = a - r at hlen
    rw [List.length_append, hlen, List.length_singleton]
    omega
  have htoDo : (m.world.put (.e l) (m.world.buffer (.e l) ++ [value])).buffer (.b l) =
      List.range' (a + 1 + 1) (s - (a + 1)) :=
    (ChanState.buffer_put_of_ne (by simp)).trans h.toDo
  have htrace' : (laneView m l).trace = (before ++ trace) ++ [] := by
    rw [List.append_nil]
    exact htrace
  apply LaneAt.own (localLog_chan m.log (by exact Option.some_ne_none _) _)
  cases goOn with
  | true =>
    exact {
      body := h.body
      now := rfl
      toDo := htoDo
      upTo := h.upTo
      within := h.within
      answers := by simpa using hanswers
      taken := fun _ => Nat.le_succ_of_le htaken
      ended := h.ended
      sound := trivial
      played := ⟨before ++ trace, [], htrace', hplayed, rfl⟩ }
  | false =>
    exact {
      body := h.body
      now := rfl
      toDo := htoDo
      upTo := h.upTo
      within := h.within
      answers := by simpa using hanswers
      taken := fun _ => Nat.le_succ_of_le htaken
      ended := h.ended
      sound := by
        have hgoOn := h.sound.2.2
        cases l with
        | one => rfl
        | two => exact absurd (hgoOn rfl) Bool.false_ne_true
      played := ⟨before ++ trace, [], htrace', hplayed, rfl⟩ }

theorem LaneAt.leaves {stopped : Bool} (h : LaneAt t l (laneView m l) s r (.leaving stopped) a) :
    LaneAt t l (laneView (performed m (.worker l) (.close (.e l)) () (.done false)
      (m.world.shut (.e l))) l) s r (.gone stopped) a := by
  apply LaneAt.own (localLog_chan m.log (by exact Option.some_ne_none _) _)
  exact {
    body := h.body
    now := rfl
    toDo := h.toDo
    upTo := h.upTo
    within := h.within
    answers := h.answers
    taken := fun hended => absurd hended (by simp)
    ended := by simp [Stage.isGone]
    sound := h.sound
    played := h.played }

variable {op : JOp} {next : JReply op → JProg Bool} {reply : JReply op}
  {w : ChanState JVal DumpDir}

theorem weight_takes {count k : Nat} {rest : TdProg Report} (ha : a < count) (hk : k ≤ longest) :
    (Stage.busy rest k).weight count a < Stage.idle.weight count a := by
  obtain ⟨d, hd⟩ : ∃ d, count - a = d + 1 := ⟨count - (a + 1), by omega⟩
  have hd' : count - (a + 1) = d := by omega
  simp only [Stage.weight, hd, hd', Nat.mul_succ]
  omega

theorem LaneAt.act (h : LaneAt t l (laneView m l) s r stage a)
    (hnow : (m.routines (.worker l)).now = .act op next)
    (hperform : t.perform op m.world reply w) :
    OwnOp l op ∧ ∃ stage' a', stage'.weight t.count a' < stage.weight t.count a ∧
      LaneAt t l (laneView (performed m (.worker l) op reply (next reply) w) l) s r stage' a' := by
  have hprog : stage.now t l = .act op next := h.now.symm.trans hnow
  cases stage with
  | idle =>
    replace hprog : Prog.act (ChanOp.recv (.b l)) _ = .act op next := hprog
    cases hprog
    apply And.intro (.inr (.inl rfl))
    cases reply with
    | none =>
      obtain ⟨hbuffer, hclosed, rfl⟩ := hperform
      exact ⟨.leaving false, a, by simp [Stage.weight], h.sees hbuffer hclosed⟩
    | some n =>
      obtain ⟨rest, hbuffer, rfl⟩ := hperform
      obtain ⟨ha, hat⟩ := h.takes hbuffer
      exact ⟨_, a, weight_takes ha (Nat.le_refl _), hat⟩
  | again => cases hprog
  | busy rest k =>
    cases rest with
    | done report =>
      replace hprog : Prog.act (ChanOp.send (.e l) report.value) _ = .act op next := hprog
      cases hprog
      obtain ⟨_, _, rfl⟩ := hperform
      refine ⟨.inr (.inr rfl), _, a + 1, ?_, h.reports⟩
      cases report.goOn with
      | true =>
        simp only [Stage.weight, if_true]
        omega
      | false =>
        simp only [Stage.weight, Bool.false_eq_true, if_false]
        omega
    | act tdOp cont =>
      replace hprog : Prog.act (ChanOp.act tdOp) _ = .act op next := hprog
      cases hprog
      obtain ⟨w', _, rfl⟩ := hperform
      cases k with
      | zero => exact h.sound.1.elim
      | succ k =>
        refine ⟨.inl rfl, _, a, ?_, h.works reply w'⟩
        simp only [Stage.weight]
        omega
  | leaving stopped =>
    replace hprog : Prog.act (ChanOp.close (.e l)) _ = .act op next := hprog
    cases hprog
    obtain ⟨_, rfl⟩ := hperform
    exact ⟨.inr (.inr rfl), _, a, by simp [Stage.weight], h.leaves⟩
  | gone stopped => cases hprog

/-- A worker that has a round to do, or whose channel is closed, has a step. -/
theorem LaneAt.progress (h : LaneAt t l (laneView m l) s r stage a) (hgone : stage.isGone = false)
    (hmore : a < s ∨ m.world.closed (.b l) = true) : ∃ m', Machine.Step t.perform m m' := by
  have hopen : m.world.closed (.e l) = false := h.ended.trans hgone
  have hnow : (m.routines (.worker l)).now = stage.now t l := h.now
  cases stage with
  | idle =>
    replace hnow : _ = Prog.act (ChanOp.recv (JChan.b l)) _ := hnow
    have htoDo : m.world.buffer (.b l) = List.range' (a + 1) (s - a) := h.toDo
    cases hbuffer : m.world.buffer (.b l) with
    | cons n rest => exact ⟨_, .act hnow (ChanPerform.recv hbuffer)⟩
    | nil =>
      have hlen := congrArg List.length (hbuffer.symm.trans htoDo)
      rw [List.length_nil, List.length_range'] at hlen
      have hclosed : m.world.closed (.b l) = true := by
        rcases hmore with hlt | hclosed
        · omega
        · exact hclosed
      exact ⟨_, .act hnow (ChanPerform.recv_end hbuffer hclosed)⟩
  | again => exact ⟨_, .again hnow⟩
  | busy rest k =>
    cases rest with
    | done report =>
      replace hnow : (m.routines (.worker l)).now =
        Prog.act (ChanOp.send (.e l) report.value) _ := hnow
      have hroom : (m.world.buffer (.e l)).length < t.count := by
        have hanswers : (m.world.buffer (.e l)).length = a - r := h.answers
        have hup : a + 1 ≤ s := h.upTo
        have hwithin := h.within
        omega
      exact ⟨_, .act hnow (ChanPerform.send hopen hroom)⟩
    | act op cont =>
      replace hnow : _ = Prog.act (ChanOp.act op) _ := hnow
      obtain ⟨reply, w, hperform⟩ := TdPerform.total op m.world.world
      exact ⟨_, .act hnow (ChanPerform.act hperform)⟩
  | leaving stopped =>
    replace hnow : _ = Prog.act (ChanOp.close (JChan.e l)) _ := hnow
    exact ⟨_, .act hnow (ChanPerform.close hopen)⟩
  | gone stopped => cases hgone

end Worker

end JStack

end YcAgent.Capture
