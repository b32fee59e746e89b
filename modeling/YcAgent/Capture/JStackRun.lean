import YcAgent.Capture.JStackWorker

/-!
`JStack.Run` comes to an end in every interleaving. The main loop waits for a
worker only as long as that has a step to take. Since the worker that runs
`top -H` never stops early, its runs are those of all rounds in order.
-/

namespace YcAgent.Capture

open Go Lib.Program

namespace JStack

variable (t : JStack)

/-- What the main loop does from the moment `n` rounds are over. -/
def mainFrom (t : JStack) (n : Nat) : JProg Bool := mainLoop (List.range' (n + 1) (t.count - n))

def storeErr (err : Option IOError) : JProg Unit := (quietly (call (.setErr err))).local

/-- Where the main loop is, with the number of rounds that are over. -/
inductive MainStage where
  | round (n : Nat)
  | sentTop (n : Nat)
  | sentBoth (n : Nat)
  | gotDump (n : Nat) (err : Option IOError)
  | afterDump (n : Nat)
  | gotTop (n : Nat) (err : Option IOError)
  | closedOne
  | returned

namespace MainStage

def now (t : JStack) : MainStage → JProg Bool
  | round n => t.mainFrom n
  | sentTop n => do
    sendTo (.b .one) (n + 1)
    await .one (await .two (t.mainFrom (n + 1)))
  | sentBoth n => await .one (await .two (t.mainFrom (n + 1)))
  | gotDump n err => do
    storeErr err
    await .two (t.mainFrom (n + 1))
  | afterDump n => await .two (t.mainFrom (n + 1))
  | gotTop n err => do
    storeErr err
    t.mainFrom (n + 1)
  | closedOne => do
    closeChan (.b .two)
    return false
  | returned => .done false

def sent (count : Nat) : MainStage → Lane → Nat
  | round n, _ => n
  | sentTop n, .one => n
  | sentTop n, .two => n + 1
  | sentBoth n, _ => n + 1
  | gotDump n _, _ => n + 1
  | afterDump n, _ => n + 1
  | gotTop n _, _ => n + 1
  | closedOne, _ => count
  | returned, _ => count

def taken (count : Nat) : MainStage → Lane → Nat
  | round n, _ => n
  | sentTop n, _ => n
  | sentBoth n, _ => n
  | gotDump n _, .one => n + 1
  | gotDump n _, .two => n
  | afterDump n, .one => n + 1
  | afterDump n, .two => n
  | gotTop n _, _ => n + 1
  | closedOne, _ => count
  | returned, _ => count

def shut : MainStage → Lane → Bool
  | closedOne, .one => true
  | returned, _ => true
  | _, _ => false

def weight (count : Nat) : MainStage → Nat
  | round n => 7 * (count - n) + 2
  | sentTop n => 7 * (count - (n + 1)) + 8
  | sentBoth n => 7 * (count - (n + 1)) + 7
  | gotDump n _ => 7 * (count - (n + 1)) + 6
  | afterDump n => 7 * (count - (n + 1)) + 5
  | gotTop n _ => 7 * (count - (n + 1)) + 4
  | closedOne => 1
  | returned => 0

def Sound (count : Nat) : MainStage → Prop
  | round n => n ≤ count
  | sentTop n => n < count
  | sentBoth n => n < count
  | gotDump n _ => n < count
  | afterDump n => n < count
  | gotTop n _ => n < count
  | closedOne => True
  | returned => True

end MainStage

theorem mainFrom_count : t.mainFrom t.count = mainLoop [] := by
  unfold mainFrom
  rw [Nat.sub_self, List.range'_zero]

theorem mainFrom_of_lt {n : Nat} (hn : n < t.count) : t.mainFrom n = (do
    sendTo (.b .two) (n + 1)
    MainStage.now t (.sentTop n)) := by
  unfold mainFrom
  have hlen : t.count - n = t.count - (n + 1) + 1 := by omega
  rw [hlen, List.range'_succ]
  rfl

section Main

variable {t} {m : JMachine} {p : MainStage} {q : JProg Bool} {l : Lane} {stage : Lane → Stage}
  {a : Lane → Nat}

theorem laneView_main {op : JOp} {reply : JReply op} {w : ChanState JVal DumpDir} :
    laneView (performed m .main op reply q w) l =
    ⟨m.routines (.worker l), w.buffer (.b l), (w.buffer (.e l)).length, w.closed (.b l),
      w.closed (.e l), localLog (.worker l) m.log⟩ := by
  have hne : JWho.main ≠ .worker l := JWho.noConfusion
  simp only [laneView, performed]
  rw [Machine.put_of_ne hne.symm, localLog_of_ne _ hne]

theorem laneView_sent (n : Nat) : laneView (performed m .main (.send (.b l) n) () q
    (m.world.put (.b l) (m.world.buffer (.b l) ++ [n]))) l =
    { laneView m l with toDo := (laneView m l).toDo ++ [n] } := by
  rw [laneView_main]
  simp [laneView]

theorem laneView_took {reply : Option (Option IOError)} {w : ChanState JVal DumpDir}
    (hperform : t.perform (.recv (.e l)) m.world reply w) :
    laneView (performed m .main (.recv (.e l)) reply q w) l =
      { laneView m l with answers := (laneView m l).answers - 1 } ∧
    ((laneView m l).answers ≠ 0 ∨ (laneView m l).ended = true) := by
  rw [laneView_main]
  cases reply with
  | none =>
    obtain ⟨hbuffer, hclosed, rfl⟩ := hperform
    have hempty : (m.world.buffer (.e l)).length = 0 := congrArg List.length hbuffer
    apply And.intro
    · simp [laneView, hempty]
    · exact .inr hclosed
  | some v =>
    obtain ⟨rest, hbuffer, rfl⟩ := hperform
    have hlength : (m.world.buffer (.e l)).length = rest.length + 1 := congrArg List.length hbuffer
    apply And.intro
    · simp [laneView, hlength]
    · apply Or.inl
      change (m.world.buffer (.e l)).length ≠ 0
      omega

theorem laneView_shut : laneView (performed m .main (.close (.b l)) () q (m.world.shut (.b l))) l =
    { laneView m l with shut := true } := by
  rw [laneView_main]
  simp [laneView]

/-- The main loop and the workers, in accordance with each other. -/
structure RunAt (t : JStack) (m : JMachine) (p : MainStage) (stage : Lane → Stage)
    (a : Lane → Nat) : Prop where
  now : (m.routines .main).now = p.now t
  sound : p.Sound t.count
  shut : ∀ l, m.world.closed (.b l) = p.shut l
  took : ∀ l, receipts .main (.e l) m.log = p.taken t.count l
  lanes : ∀ l, LaneAt t l (laneView m l) (p.sent t.count l) (p.taken t.count l) (stage l) (a l)

namespace RunAt

theorem now_of_performed {op : JOp} {reply : JReply op} {w : ChanState JVal DumpDir} :
    ((performed m .main op reply q w).routines .main).now = q := by
  change (m.put .main q .main).now = q
  rw [Machine.put_self]

theorem sends (h : RunAt t m p stage a) (p' : MainStage) (hnow : q = p'.now t)
    (hsound : p'.Sound t.count) (hshut : p'.shut = p.shut) (hopen : p.shut l = false)
    (hroom : p.sent t.count l < t.count)
    (hsent : p'.sent t.count = Function.update (p.sent t.count) l (p.sent t.count l + 1))
    (htaken : p'.taken t.count = p.taken t.count) :
    RunAt t (performed m .main (.send (.b l) (p.sent t.count l + 1)) () q
      (m.world.put (.b l) (m.world.buffer (.b l) ++ [p.sent t.count l + 1]))) p' stage a where
  now := now_of_performed.trans hnow
  sound := hsound
  shut := by
    rw [hshut]
    exact h.shut
  took := by
    intro j
    rw [htaken]
    exact (receipts_of_chan m.log (by simp [ChanOp.chan]) _).trans (h.took j)
  lanes := by
    intro j
    rw [hsent, htaken]
    by_cases hj : j = l
    · subst hj
      rw [laneView_sent, Function.update_self]
      exact (h.lanes j).sent hroom ((h.shut j).trans hopen)
    · rw [laneView_main, Function.update_of_ne hj]
      simpa [hj, laneView] using h.lanes j

theorem takes {reply : Option (Option IOError)} {w : ChanState JVal DumpDir}
    (h : RunAt t m p stage a) (hperform : t.perform (.recv (.e l)) m.world reply w)
    (p' : MainStage) (hnow : q = p'.now t) (hsound : p'.Sound t.count) (hshut : p'.shut = p.shut)
    (hsent : p'.sent t.count = p.sent t.count)
    (htaken : p'.taken t.count = Function.update (p.taken t.count) l (p.taken t.count l + 1)) :
    RunAt t (performed m .main (.recv (.e l)) reply q w) p' stage a where
  now := now_of_performed.trans hnow
  sound := hsound
  shut := by
    intro j
    rw [hshut, ← h.shut j]
    exact (ChanPerform.frame hperform (by simp [ChanOp.chan])).2
  took := by
    intro j
    rw [htaken]
    by_cases hj : j = l
    · subst hj
      rw [Function.update_self, ← h.took j]
      exact receipts_recv (c := JChan.e j) m.log reply
    · rw [Function.update_of_ne hj, ← h.took j]
      exact receipts_of_chan m.log (by simp [ChanOp.chan, Ne.symm hj]) _
  lanes := by
    intro j
    rw [hsent, htaken]
    by_cases hj : j = l
    · subst hj
      obtain ⟨hview, hready⟩ := laneView_took hperform
      rw [hview, Function.update_self]
      exact (h.lanes j).took hready
    · rw [Function.update_of_ne hj, laneView_frame JWho.noConfusion hperform
        (by simp [ChanOp.chan]) (by simp [ChanOp.chan, Ne.symm hj])]
      exact h.lanes j

theorem closes (h : RunAt t m p stage a) (p' : MainStage) (hnow : q = p'.now t)
    (hsound : p'.Sound t.count) (hshut : p'.shut = Function.update p.shut l true)
    (hsent : p'.sent t.count = p.sent t.count) (htaken : p'.taken t.count = p.taken t.count) :
    RunAt t (performed m .main (.close (.b l)) () q (m.world.shut (.b l))) p' stage a where
  now := now_of_performed.trans hnow
  sound := hsound
  shut := by
    intro j
    rw [hshut]
    by_cases hj : j = l
    · subst hj
      rw [Function.update_self]
      exact ChanState.closed_shut
    · rw [Function.update_of_ne hj, ← h.shut j]
      exact ChanState.closed_shut_of_ne (by simpa using hj)
  took := by
    intro j
    rw [htaken]
    exact (receipts_of_chan m.log (by simp [ChanOp.chan]) _).trans (h.took j)
  lanes := by
    intro j
    rw [hsent, htaken]
    by_cases hj : j = l
    · subst hj
      rw [laneView_shut]
      exact (h.lanes j).shut
    · rw [laneView_main]
      simpa [hj, laneView] using h.lanes j

theorem stores {op : TdOp} {reply : op.Reply} {w : DumpDir} (h : RunAt t m p stage a)
    (p' : MainStage) (hnow : q = p'.now t) (hsound : p'.Sound t.count)
    (hshut : p'.shut = p.shut) (hsent : p'.sent t.count = p.sent t.count)
    (htaken : p'.taken t.count = p.taken t.count) :
    RunAt t (performed m .main (.act op) reply q { m.world with world := w }) p' stage a where
  now := now_of_performed.trans hnow
  sound := hsound
  shut := by
    rw [hshut]
    exact h.shut
  took := by
    intro j
    rw [htaken]
    exact (receipts_of_chan m.log (by simp [ChanOp.chan]) _).trans (h.took j)
  lanes := by
    intro j
    rw [hsent, htaken, laneView_main]
    exact h.lanes j

variable {op : JOp} {next : JReply op → JProg Bool} {reply : JReply op}
  {w : ChanState JVal DumpDir}

theorem act (h : RunAt t m p stage a) (hnow : (m.routines .main).now = .act op next)
    (hperform : t.perform op m.world reply w) :
    ∃ p', p'.weight t.count < p.weight t.count ∧
      RunAt t (performed m .main op reply (next reply) w) p' stage a := by
  have hprog : p.now t = .act op next := h.now.symm.trans hnow
  have hsound := h.sound
  cases p with
  | round n =>
    replace hprog : t.mainFrom n = .act op next := hprog
    rcases Nat.lt_or_eq_of_le hsound with hn | rfl
    · rw [mainFrom_of_lt t hn] at hprog
      replace hprog : Prog.act (ChanOp.send (JChan.b .two) (n + 1)) _ = .act op next := hprog
      cases hprog
      obtain ⟨_, _, rfl⟩ := hperform
      refine ⟨.sentTop n, ?_, h.sends (.sentTop n) rfl hn rfl rfl hn ?_ rfl⟩
      · simp only [MainStage.weight]
        omega
      · funext l
        cases l <;> rfl
    · rw [mainFrom_count] at hprog
      replace hprog : Prog.act (ChanOp.close (JChan.b .one)) _ = .act op next := hprog
      cases hprog
      obtain ⟨_, rfl⟩ := hperform
      refine ⟨.closedOne, ?_, h.closes .closedOne rfl trivial ?_ rfl rfl⟩
      · simp [MainStage.weight]
      · funext l
        cases l <;> rfl
  | sentTop n =>
    replace hprog : Prog.act (ChanOp.send (JChan.b .one) (n + 1)) _ = .act op next := hprog
    cases hprog
    obtain ⟨_, _, rfl⟩ := hperform
    refine ⟨.sentBoth n, ?_, h.sends (.sentBoth n) rfl hsound rfl rfl hsound ?_ rfl⟩
    · simp [MainStage.weight]
    · funext l
      cases l <;> rfl
  | sentBoth n =>
    replace hprog : Prog.act (ChanOp.recv (JChan.e .one)) _ = .act op next := hprog
    cases hprog
    refine ⟨.gotDump n _, ?_, h.takes hperform (.gotDump n _) rfl hsound rfl rfl ?_⟩
    · simp [MainStage.weight]
    · funext l
      cases l <;> rfl
  | gotDump n err =>
    replace hprog : Prog.act (ChanOp.act (TdOp.file (.setErr err))) _ = .act op next := hprog
    cases hprog
    obtain ⟨_, _, rfl⟩ := hperform
    refine ⟨.afterDump n, ?_, h.stores (.afterDump n) rfl hsound rfl rfl ?_⟩
    · simp [MainStage.weight]
    · funext l
      cases l <;> rfl
  | afterDump n =>
    replace hprog : Prog.act (ChanOp.recv (JChan.e .two)) _ = .act op next := hprog
    cases hprog
    refine ⟨.gotTop n _, ?_, h.takes hperform (.gotTop n _) rfl hsound rfl rfl ?_⟩
    · simp [MainStage.weight]
    · funext l
      cases l <;> rfl
  | gotTop n err =>
    replace hprog : Prog.act (ChanOp.act (TdOp.file (.setErr err))) _ = .act op next := hprog
    cases hprog
    obtain ⟨_, _, rfl⟩ := hperform
    refine ⟨.round (n + 1), ?_, h.stores (.round (n + 1)) rfl hsound rfl rfl rfl⟩
    simp [MainStage.weight]
  | closedOne =>
    replace hprog : Prog.act (ChanOp.close (JChan.b .two)) _ = .act op next := hprog
    cases hprog
    obtain ⟨_, rfl⟩ := hperform
    refine ⟨.returned, ?_, h.closes .returned rfl trivial ?_ rfl rfl⟩
    · simp [MainStage.weight]
    · funext l
      cases l <;> rfl
  | returned => cases hprog

theorem workerActs (h : RunAt t m p stage a)
    (hnow : (m.routines (.worker l)).now = .act op next)
    (hperform : t.perform op m.world reply w) :
    ∃ stage' a', stage'.weight t.count a' < (stage l).weight t.count (a l) ∧
      RunAt t (performed m (.worker l) op reply (next reply) w) p
        (Function.update stage l stage') (Function.update a l a') := by
  obtain ⟨hown, stage', a', hweight, hlane⟩ := (h.lanes l).act hnow hperform
  have hne : JWho.worker l ≠ .main := JWho.noConfusion
  refine ⟨stage', a', hweight, ?_⟩
  exact {
    now := by
      change (m.put (.worker l) (next reply) .main).now = _
      rw [Machine.put_of_ne hne.symm]
      exact h.now
    sound := h.sound
    shut := fun j => (hown.keeps_open hperform).trans (h.shut j)
    took := fun j => (receipts_of_ne m.log hne _).trans (h.took j)
    lanes := by
      intro j
      by_cases hj : j = l
      · subst hj
        rw [Function.update_self, Function.update_self]
        exact hlane
      · have hwho : JWho.worker l ≠ .worker j := fun heq => hj (JWho.worker.inj heq).symm
        obtain ⟨hb, he⟩ := hown.chan_ne hj
        rw [laneView_frame hwho hperform hb he, Function.update_of_ne hj, Function.update_of_ne hj]
        exact h.lanes j }

theorem workerAgain (h : RunAt t m p stage a) (hagain : stage l = .again) :
    RunAt t ⟨m.put (.worker l) (m.routines (.worker l)).body, m.world, m.log⟩ p
      (Function.update stage l .idle) a where
  now := by
    have hne : JWho.main ≠ .worker l := JWho.noConfusion
    change (m.put (.worker l) (m.routines (.worker l)).body .main).now = _
    rw [Machine.put_of_ne hne]
    exact h.now
  sound := h.sound
  shut := h.shut
  took := h.took
  lanes := by
    intro j
    have hlane := h.lanes j
    by_cases hj : j = l
    · subst hj
      rw [hagain] at hlane
      rw [Function.update_self]
      exact hlane.again
    · have hwho : JWho.worker j ≠ .worker l := fun heq => hj (JWho.worker.inj heq)
      rw [Function.update_of_ne hj]
      simp only [laneView, Machine.put_of_ne hwho]
      exact hlane

theorem now_done {b : Bool} (hsound : p.Sound t.count) (h : p.now t = .done b) :
    p = .returned ∧ b = false := by
  cases p with
  | round n =>
    replace h : t.mainFrom n = .done b := h
    rcases Nat.lt_or_eq_of_le hsound with hn | rfl
    · rw [mainFrom_of_lt t hn] at h
      cases h
    · rw [mainFrom_count] at h
      cases h
  | returned =>
    cases h
    exact ⟨rfl, rfl⟩
  | _ => cases h

theorem stage_done {stage : Stage} {b : Bool} (h : stage.now t l = .done b) :
    stage = .again ∧ b = true ∨ stage.isGone = true ∧ b = false := by
  cases stage with
  | again =>
    cases h
    exact .inl ⟨rfl, rfl⟩
  | gone stopped =>
    cases h
    exact .inr ⟨rfl, rfl⟩
  | idle => cases h
  | busy rest k => cases rest <;> cases h
  | leaving stopped => cases h

/-! The main loop waits for a worker only as long as that has a step. -/

theorem awaits (h : RunAt t m p stage a) {k : JReply (.recv (.e l)) → JProg Bool}
    (hnow : (m.routines .main).now = .act (.recv (.e l)) k)
    (hless : p.taken t.count l < p.sent t.count l) : ∃ m', Machine.Step t.perform m m' := by
  have hlane := h.lanes l
  cases hbuffer : m.world.buffer (.e l) with
  | cons v rest => exact ⟨_, .act hnow (ChanPerform.recv hbuffer)⟩
  | nil =>
    cases hclosed : m.world.closed (.e l) with
    | true => exact ⟨_, .act hnow (ChanPerform.recv_end hbuffer hclosed)⟩
    | false =>
      have hempty : (laneView m l).answers = 0 := congrArg List.length hbuffer
      have hanswers := hlane.answers
      have htaken := hlane.taken hclosed
      apply hlane.progress (hlane.ended.symm.trans hclosed)
      apply Or.inl
      omega

theorem sendable (h : RunAt t m p stage a) {n : Nat} {k : JReply (.send (.b l) n) → JProg Bool}
    (hnow : (m.routines .main).now = .act (.send (.b l) n) k) (hopen : p.shut l = false)
    (hroom : p.sent t.count l < t.count) : ∃ m', Machine.Step t.perform m m' := by
  have hlength : (m.world.buffer (.b l)).length < t.count := by
    have htoDo : m.world.buffer (.b l) = _ := (h.lanes l).toDo
    rw [htoDo, List.length_range']
    omega
  exact ⟨_, .act hnow (ChanPerform.send ((h.shut l).trans hopen) hlength)⟩

theorem storable {err : Option IOError}
    {k : JReply (.act (.file (.setErr err))) → JProg Bool}
    (hnow : (m.routines .main).now = .act (.act (.file (.setErr err))) k) :
    ∃ m', Machine.Step t.perform m m' := by
  obtain ⟨reply, w, hperform⟩ := TdPerform.total (.file (.setErr err)) m.world.world
  exact ⟨_, .act hnow (ChanPerform.act hperform)⟩

theorem progress (h : RunAt t m p stage a) (hm : ¬m.Finished) :
    ∃ m', Machine.Step t.perform m m' := by
  have hnow := h.now
  have hsound := h.sound
  cases p with
  | round n =>
    replace hnow : _ = t.mainFrom n := hnow
    rcases Nat.lt_or_eq_of_le hsound with hn | rfl
    · rw [mainFrom_of_lt t hn] at hnow
      exact h.sendable hnow rfl hn
    · rw [mainFrom_count] at hnow
      exact ⟨_, .act hnow (ChanPerform.close (h.shut .one))⟩
  | sentTop n => exact h.sendable hnow rfl hsound
  | sentBoth n => exact h.awaits hnow (Nat.lt_succ_self n)
  | gotDump n err => exact storable hnow
  | afterDump n => exact h.awaits hnow (Nat.lt_succ_self n)
  | gotTop n err => exact storable hnow
  | closedOne => exact ⟨_, .act hnow (ChanPerform.close (h.shut .two))⟩
  | returned =>
    -- both channels are closed, so that a worker which is still there has a step
    have hworker : ∃ l, (stage l).isGone = false := by
      by_contra hall
      apply hm
      intro i
      cases i with
      | main => exact hnow
      | worker l =>
        have hlane := (h.lanes l).now
        cases hstage : stage l with
        | gone stopped =>
          rw [hstage] at hlane
          exact hlane
        | _ => exact absurd ⟨l, by rw [hstage]; rfl⟩ hall
    obtain ⟨l, hl⟩ := hworker
    exact (h.lanes l).progress hl (.inr (h.shut l))

end RunAt

end Main

def load (t : JStack) (stage : Lane → Stage) (a : Lane → Nat) : Nat :=
  (stage .one).weight t.count (a .one) + (stage .two).weight t.count (a .two)

theorem load_lt {stage stage' : Lane → Stage} {a a' : Lane → Nat} {l : Lane}
    (hless : (stage' l).weight t.count (a' l) < (stage l).weight t.count (a l))
    (hsame : ∀ j, j ≠ l → stage' j = stage j ∧ a' j = a j) : t.load stage' a' < t.load stage a := by
  cases l with
  | one =>
    obtain ⟨hstage, ha⟩ := hsame .two (by simp)
    unfold load
    rw [hstage, ha]
    omega
  | two =>
    obtain ⟨hstage, ha⟩ := hsame .one (by simp)
    unfold load
    rw [hstage, ha]
    omega

/-- The states of a run, with a bound of the steps that are left. -/
def Running (t : JStack) (m : JMachine) (k : Nat) : Prop :=
  ∃ p stage a, RunAt t m p stage a ∧ k = p.weight t.count + t.load stage a

theorem running_start (w : DumpDir) : ∃ k, t.Running (t.start w) k := by
  refine ⟨_, .round 0, fun _ => .idle, fun _ => 0, ?_, rfl⟩
  exact {
    now := rfl
    sound := Nat.zero_le _
    shut := fun _ => rfl
    took := fun _ => rfl
    lanes := fun l => {
      body := rfl
      now := rfl
      toDo := rfl
      upTo := Nat.le_refl _
      within := Nat.zero_le _
      answers := rfl
      taken := fun _ => Nat.le_refl _
      ended := rfl
      sound := trivial
      played := ⟨[], [], rfl, .start, rfl⟩ } }

theorem running_winds : Machine.Winds t.perform t.Running where
  step := by
    rintro m k m' ⟨p, stage, a, h, rfl⟩ hstep
    cases hstep with
    | @act i op next reply w hnow hperform =>
      cases i with
      | main =>
        obtain ⟨p', hless, hrun⟩ := h.act hnow hperform
        exact ⟨_, Nat.add_lt_add_right hless _, p', stage, a, hrun, rfl⟩
      | worker l =>
        obtain ⟨stage', a', hless, hrun⟩ := h.workerActs hnow hperform
        refine ⟨_, Nat.add_lt_add_left (t.load_lt (l := l) ?_ ?_) _, p, _, _, hrun, rfl⟩
        · rw [Function.update_self, Function.update_self]
          exact hless
        · intro j hj
          exact ⟨Function.update_of_ne hj _ _, Function.update_of_ne hj _ _⟩
    | @again i hnow =>
      cases i with
      | main =>
        obtain ⟨_, hfalse⟩ := RunAt.now_done h.sound (h.now.symm.trans hnow)
        cases hfalse
      | worker l =>
        have hlane := (h.lanes l).now.symm.trans hnow
        rcases RunAt.stage_done hlane with ⟨hstage, _⟩ | ⟨_, hfalse⟩
        · refine ⟨_, Nat.add_lt_add_left (t.load_lt (l := l) ?_ ?_) _, p, _, _,
            h.workerAgain hstage, rfl⟩
          · rw [Function.update_self, hstage]
            exact Nat.lt_succ_self _
          · intro j hj
            exact ⟨Function.update_of_ne hj _ _, rfl⟩
        · cases hfalse
  progress := by
    rintro m k ⟨p, stage, a, h, _⟩ hm
    exact h.progress hm

theorem reaches_run {w : DumpDir} {m : JMachine} (hm : Machine.Reaches t.perform (t.start w) m) :
    ∃ p stage a, RunAt t m p stage a := by
  obtain ⟨k, hstart⟩ := t.running_start w
  obtain ⟨_, _, p, stage, a, h, _⟩ := t.running_winds.reaches hstart hm
  exact ⟨p, stage, a, h⟩

def topRounds (t : JStack) : List Nat → DumpProg Unit
  | [] => return ()
  | n :: ns => do
    let _ ← t.topHRound n
    t.topRounds ns

theorem rounds_two (ns : List Nat) :
    t.rounds .two ns = quietly (t.topRounds ns) >>= fun _ => .done true := by
  induction ns with
  | nil => rfl
  | cons n ns ih =>
    have htop : quietly (t.topRounds (n :: ns)) =
        quietly (t.topHRound n) >>= fun _ => quietly (t.topRounds ns) := Prog.interpret_bind _ _ _
    rw [htop, Prog.bind_assoc, ← ih]
    exact Prog.bind_assoc _ _ _

/-- `top -H` was run in each of the first `n` rounds, one after the other, and at
most the run of the next round has begun. -/
def TopHInOrder (t : JStack) (n : Nat) (trace : Trace TdOp TdOp.Reply DumpDir) : Prop :=
  ∃ before current rest, trace = before ++ current ∧
    Plays (quietly (t.topRounds (List.range' 1 n))) before (.done ()) ∧
    Plays (quietly (t.topHRound (n + 1))) current rest

section Top

variable {t} {v : LaneView} {s r a : Nat} {stage : Stage}

theorem LaneAt.two_not_stopped (h : LaneAt t .two v s r stage a) : stage.stopped = false := by
  have hsound := h.sound
  cases stage with
  | leaving stopped =>
    cases stopped with
    | true => cases hsound
    | false => rfl
  | gone stopped =>
    cases stopped with
    | true => cases hsound
    | false => rfl
  | _ => rfl

theorem LaneAt.two_played (h : LaneAt t .two v s r stage a) :
    ∃ before current, v.trace = before ++ current ∧
      Plays (quietly (t.topRounds (List.range' 1 a))) before (.done ()) ∧
      stage.InRound t .two (a + 1) current := by
  obtain ⟨before, current, htrace, hbefore, hcurrent⟩ := h.played
  rw [h.two_not_stopped, rounds_two] at hbefore
  obtain ⟨p', hplays, hdone⟩ := hbefore.of_map
  cases p' with
  | done u => exact ⟨before, current, htrace, hplays, hcurrent⟩
  | act op next => cases hdone

theorem LaneAt.topH (h : LaneAt t .two v s r stage a) : t.TopHInOrder a v.trace := by
  obtain ⟨before, current, htrace, hbefore, hcurrent⟩ := h.two_played
  cases stage with
  | busy rest k =>
    obtain ⟨p', hplays, _⟩ := Plays.of_map hcurrent
    exact ⟨before, current, p', htrace, hbefore, hplays⟩
  | _ =>
    cases hcurrent
    exact ⟨before, [], _, htrace, hbefore, .start⟩

/-- `top -H` has been run as often as the main loop has had an answer, or once
more. -/
theorem LaneAt.two_taken (h : LaneAt t .two v s r stage a) (hrs : r ≤ s) : r ≤ a := by
  cases hended : v.ended with
  | false => exact h.taken hended
  | true =>
    have hgone := h.ended.symm.trans hended
    have hstopped := h.two_not_stopped
    have hsound := h.sound
    cases stage with
    | gone stopped =>
      cases hstopped
      rw [hsound.2]
      exact hrs
    | _ => cases hgone

end Top

theorem taken_le_sent (p : MainStage) (l : Lane) (count : Nat) :
    p.taken count l ≤ p.sent count l ∧ p.sent count l ≤ p.taken count l + 1 := by
  cases p <;> cases l <;> simp [MainStage.taken, MainStage.sent]

/-- `JStack.Run` never deadlocks. From every state of a run something can happen
until all three goroutines have ended, and no run goes on for ever. The runs of
`top -H` are those of the rounds in order. When the main loop has returned it
has had an answer from each worker in each round, and `top -H` was run in all of
them. -/
theorem jstack_never_deadlocks (w : DumpDir) (m : JMachine)
    (hm : Machine.Reaches t.perform (t.start w) m) :
    (m.Finished ∨ ∃ m', Machine.Step t.perform m m') ∧
    Acc (fun after before => Machine.Step t.perform before after) m ∧
    (∃ n, t.TopHInOrder n (localLog (.worker .two) m.log) ∧
      receipts .main (.e .two) m.log ≤ n ∧ n ≤ receipts .main (.e .two) m.log + 1) ∧
    ((m.routines .main).now = .done false →
      (∀ l, receipts .main (.e l) m.log = t.count) ∧
      Plays (quietly (t.topRounds (List.range' 1 t.count))) (localLog (.worker .two) m.log)
        (.done ())) := by
  obtain ⟨k₀, hstart⟩ := t.running_start w
  obtain ⟨k, _, hrunning⟩ := t.running_winds.reaches hstart hm
  obtain ⟨p, stage, a, h, _⟩ := id hrunning
  have htop := h.lanes .two
  obtain ⟨hrs, hsr⟩ := taken_le_sent p .two t.count
  have htaken := htop.two_taken hrs
  have hup := htop.upTo
  refine ⟨?_, t.running_winds.acc hrunning, ⟨a .two, htop.topH, ?_, ?_⟩, ?_⟩
  · by_cases hfinished : m.Finished
    · exact .inl hfinished
    · exact .inr (h.progress hfinished)
  · rw [h.took]
    exact htaken
  · rw [h.took]
    omega
  · intro hmain
    obtain ⟨rfl, _⟩ := RunAt.now_done h.sound (h.now.symm.trans hmain)
    refine ⟨h.took, ?_⟩
    obtain ⟨before, current, htrace, hbefore, hcurrent⟩ := htop.two_played
    change t.count ≤ a .two at htaken
    change a .two + (stage .two).inHand ≤ t.count at hup
    have hall : a .two = t.count := by omega
    have hnone : current = [] := by
      cases hstage : stage .two with
      | busy rest k =>
        rw [hstage] at hup
        change a .two + 1 ≤ t.count at hup
        omega
      | _ =>
        rw [hstage] at hcurrent
        exact hcurrent
    rw [hnone, List.append_nil] at htrace
    change localLog (.worker .two) m.log = before at htrace
    rw [← hall, htrace]
    exact hbefore

def commandsEnd (err : Option IOError) : (op : DumpOp) → DumpDir → op.Reply × DumpDir
  | .turn, w => (true, w)
  | .getErr, w => (w.err, w)
  | .setErr e, w => ((), { w with err := e })
  | .isProcessExists _, w => (false, w)
  | .copy2TempPath, w => (.ok "/tmp/yc", w)
  | .create name, w => (.ok (), w.put name [])
  | .write pid name pos bytes, w =>
    (.ok (), w.put name (overwrite pid (w.content name) pos bytes))
  | .scan _, w => ((0 : Nat), w)
  | .seek _, w => (.ok (), w)
  | .truncate name, w => (.ok (), w.put name [])
  | .combinedOutput cmd name pos, w =>
    (⟨0, 1, err⟩, w.put name (overwrite cmd.pid (w.content name) pos []))
  | .start _, w => (.ok (), w)
  | .wait cmd name pos, w =>
    (⟨0, 1, err⟩, w.put name (overwrite cmd.pid (w.content name) pos []))
  | .sync _, w => (.ok (), w)
  | .close _, w => (.ok (), w)
  | .openSource _, w => (.ok (), w)
  | .copy _ _ name, w => (.ok (), w.put name [])
  | .cat _ _, w => (.error "exit status 1", w)
  | .openDump, w => (.error "no such file or directory", w)

theorem commandsEnd_perform (err : Option IOError) (op : DumpOp) (w : DumpDir) :
    DumpPerform op w (commandsEnd err op w).1 (commandsEnd err op w).2 := by
  cases op with
  | getErr => exact ⟨rfl, rfl⟩
  | write pid name pos bytes => exact ⟨bytes, List.prefix_refl bytes, fun _ => rfl, rfl⟩
  | scan name => exact ⟨Nat.zero_le _, rfl⟩
  | combinedOutput cmd name pos => exact ⟨[], rfl, rfl⟩
  | wait cmd name pos => exact ⟨[], rfl, rfl⟩
  | copy pid path name => exact ⟨[], rfl⟩
  | cat glob append => exact .inl rfl
  | openDump => exact ⟨rfl, nofun⟩
  | _ => rfl

def tdHost (err : Option IOError) : (op : TdOp) → DumpDir → Option (op.Reply × DumpDir)
  | .trying _ _, w => some ((), w)
  | .file op, w => some (commandsEnd err op w)

theorem tdHost_perform (err : Option IOError) (op : TdOp) (w : DumpDir) (r : op.Reply)
    (w' : DumpDir) (h : tdHost err op w = some (r, w')) : TdPerform op w r w' := by
  cases op with
  | trying a n =>
    cases h
    rfl
  | file op =>
    replace h : some (commandsEnd err op w) = some (r, w') := h
    have hperform := commandsEnd_perform err op w
    rw [Option.some.inj h] at hperform
    exact hperform

/-- The order of the steps, by the numbers of steps that the thread dump worker
takes in the two rounds and after them. -/
def twoRounds (first second after : Nat) : List JWho :=
  let steps : List (Nat × JWho) :=
    [(2, .main), (first, .worker .one), (6, .worker .two), (6, .main), (second, .worker .one),
      (6, .worker .two), (6, .main), (2, .worker .two), (after, .worker .one)]
  steps.flatMap fun (n, i) => List.replicate n i

/-- The state after two rounds, if the steps can be taken in the order given. -/
def afterTwo (err : Option IOError) (order : List JWho) : Option JMachine :=
  (start ⟨"yc", "/opt/java", 7, 2⟩ ⟨∅, none⟩).schedule (chanHost (fun _ => 2) (tdHost err)) order

theorem afterTwo_reaches {err : Option IOError} {order : List JWho} {m : JMachine}
    (h : afterTwo err order = some m) :
    Machine.Reaches (perform ⟨"yc", "/opt/java", 7, 2⟩) (start ⟨"yc", "/opt/java", 7, 2⟩ ⟨∅, none⟩)
      m :=
  Machine.schedule_reaches (chanHost_perform (tdHost_perform err)) order h

theorem finished_iff {m : JMachine} : m.Finished ↔ (m.routines .main).now = .done false ∧
    (m.routines (.worker .one)).now = .done false ∧
    (m.routines (.worker .two)).now = .done false := by
  constructor
  · intro h
    exact ⟨h .main, h _, h _⟩
  · rintro ⟨hmain, hone, htwo⟩ (_ | _ | _)
    · exact hmain
    · exact hone
    · exact htwo

/-- Two rounds that come to their end. -/
theorem jstack_never_deadlocks_two_rounds : ∃ m,
    let t : JStack := ⟨"yc", "/opt/java", 7, 2⟩
    Machine.Reaches t.perform (t.start ⟨∅, none⟩) m ∧ m.Finished ∧
      (∀ l, receipts .main (.e l) m.log = 2) ∧
      Plays (quietly (t.topRounds [1, 2])) (localLog (.worker .two) m.log) (.done ()) := by
  have hrun : ∃ m, afterTwo none (twoRounds 9 9 2) = some m ∧ m.Finished :=
    ⟨_, rfl, finished_iff.2 ⟨rfl, rfl, rfl⟩⟩
  obtain ⟨m, hrun, hfinished⟩ := hrun
  have hreaches := afterTwo_reaches hrun
  exact ⟨m, hreaches, hfinished,
    (jstack_never_deadlocks _ _ m hreaches).2.2.2 (hfinished .main)⟩

end JStack

end YcAgent.Capture
