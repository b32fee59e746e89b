import YcAgent.Capture.DotnetGCAsync
import YcAgent.Capture.ProcessTable

/-!
The sessions of the .NET GC manager and the collectors behind them, over
histories of calls between which processes come and go and collectors exit.
The invariant ties the session map to the collectors; each method keeps it, and
changes only the session and the collectors of the pids it works on. What
`Reconcile` leaves for an active pid follows from what one round of its second
loop does, since the other rounds do not touch that pid.
-/

namespace YcAgent.Capture

open Go Lib.Program

namespace DotnetGCAsync

def failedLookup : Event HostOp HostOp.Reply ProcessTable → Option Pid
  | ⟨_, .getProcessStartTimestamp pid, .error _⟩ => some pid
  | _ => none

/-- The conditions of a call: the processes that neither come nor go while it
runs, with their start times, and whether a lookup fails only for a process
that is not listed. -/
structure Setting where
  steady : Pid → Prop
  table : Pid → Option Int
  reliable : Prop

def Setting.Admits (k : Setting) (e : Event HostOp HostOp.Reply ProcessTable) : Prop :=
  (∀ pid, k.steady pid → e.before.startTime pid = k.table pid) ∧
  (k.reliable → ∀ pid, failedLookup e = some pid → e.before.startTime pid = none)

def Setting.perform (k : Setting) (op : HostOp) (w : ProcessTable) (r : op.Reply)
    (w' : ProcessTable) : Prop :=
  Perform op w r w' ∧ k.Admits ⟨w, op, r⟩

def Executing (w : ProcessTable) (sess : DotnetGCSession) : Prop :=
  ∃ c ∈ w.collectors, sess.cmd = some ⟨c.pid⟩ ∧ c.target = sess.pid ∧ c.life = .running

/-- A running collector is the one of its target's session, and a session has a
collector, running or not waited for. -/
structure Tracked (d : DotnetGCAsync) (w : ProcessTable) : Prop where
  recorded : ∀ c ∈ w.collectors, c.life = .running →
    ∃ sess, d.sessions.lookup c.target = some sess ∧ sess.cmd = some ⟨c.pid⟩
  held : ∀ pid sess, d.sessions.lookup pid = some sess → sess.pid = pid ∧ 0 < pid ∧
    ∃ c ∈ w.collectors, sess.cmd = some ⟨c.pid⟩ ∧ c.target = pid ∧ c.Listed

structure SameAt (pid : Pid) (d : DotnetGCAsync) (w : ProcessTable) (d' : DotnetGCAsync)
    (w' : ProcessTable) : Prop where
  session : d'.sessions.lookup pid = d.sessions.lookup pid
  collectors : ∀ c : Collector, c.target = pid → (c ∈ w'.collectors ↔ c ∈ w.collectors)

def OnlyAt (pid : Pid) (d : DotnetGCAsync) (w : ProcessTable) (d' : DotnetGCAsync)
    (w' : ProcessTable) : Prop :=
  ∀ other, other ≠ pid → SameAt other d w d' w'

section Frame

variable {d d₁ d₂ : DotnetGCAsync} {w w₁ w₂ : ProcessTable} {pid : Pid}

theorem SameAt.refl : SameAt pid d w d w := ⟨rfl, fun _ _ => Iff.rfl⟩

theorem SameAt.trans (h₁ : SameAt pid d w d₁ w₁) (h₂ : SameAt pid d₁ w₁ d₂ w₂) :
    SameAt pid d w d₂ w₂ :=
  ⟨h₂.session.trans h₁.session,
    fun c hc => (h₂.collectors c hc).trans (h₁.collectors c hc)⟩

theorem SameAt.executing {sess : DotnetGCSession} (h : SameAt sess.pid d w d₁ w₁) :
    Executing w₁ sess ↔ Executing w sess := by
  constructor
  · rintro ⟨c, hmem, hcmd, htarget, hrunning⟩
    exact ⟨c, (h.collectors c htarget).mp hmem, hcmd, htarget, hrunning⟩
  · rintro ⟨c, hmem, hcmd, htarget, hrunning⟩
    exact ⟨c, (h.collectors c htarget).mpr hmem, hcmd, htarget, hrunning⟩

theorem OnlyAt.refl : OnlyAt pid d w d w := fun _ _ => .refl

theorem OnlyAt.trans (h₁ : OnlyAt pid d w d₁ w₁) (h₂ : OnlyAt pid d₁ w₁ d₂ w₂) :
    OnlyAt pid d w d₂ w₂ :=
  fun other hne => (h₁ other hne).trans (h₂ other hne)

/-- The invariant is to be shown for `pid` alone, if nothing else has
changed. -/
theorem Tracked.of_onlyAt (htracked : Tracked d w) (honly : OnlyAt pid d w d₁ w₁)
    (hrecorded : ∀ c ∈ w₁.collectors, c.target = pid → c.life = .running →
      ∃ sess, d₁.sessions.lookup pid = some sess ∧ sess.cmd = some ⟨c.pid⟩)
    (hheld : ∀ sess, d₁.sessions.lookup pid = some sess → sess.pid = pid ∧ 0 < pid ∧
      ∃ c ∈ w₁.collectors, sess.cmd = some ⟨c.pid⟩ ∧ c.target = pid ∧ c.Listed) :
    Tracked d₁ w₁ where
  recorded := by
    intro c hmem hrunning
    by_cases hpid : c.target = pid
    · rw [hpid]
      exact hrecorded c hmem hpid hrunning
    · rw [(honly _ hpid).session]
      exact htracked.recorded c (((honly _ hpid).collectors c rfl).mp hmem) hrunning
  held := by
    intro other sess hsess
    by_cases hpid : other = pid
    · subst hpid
      exact hheld sess hsess
    · rw [(honly other hpid).session] at hsess
      obtain ⟨hother, hpos, c, hmem, hcmd, htarget, hlisted⟩ := htracked.held other sess hsess
      exact ⟨hother, hpos, c, ((honly other hpid).collectors c htarget).mpr hmem, hcmd, htarget,
        hlisted⟩

end Frame

section Checks

variable {k : Setting} {w : ProcessTable}

theorem lookup_meets (pid : Pid) :
    (ask (.getProcessStartTimestamp pid)).Meets k.perform w fun r w' => w' = w ∧
      (∀ other, k.steady other → w.startTime other = k.table other) ∧
      match r with
      | .ok ts => w.startTime pid = some ts
      | .error _ => k.reliable → w.startTime pid = none := by
  rintro r w' ⟨⟨hok, rfl⟩, hsteady, hreliable⟩
  refine ⟨rfl, hsteady, ?_⟩
  cases r with
  | ok ts => exact hok ts rfl
  | error err => exact fun h => hreliable h pid rfl

theorem isSessionAliveLocked_meets (sess : DotnetGCSession) :
    (isSessionAliveLocked sess).Meets k.perform w fun alive w' => w' = w ∧
      (k.reliable → (∃ cmd, sess.cmd = some cmd ∧ w.startTime cmd.pid ≠ none) →
        k.steady sess.pid → k.table sess.pid ≠ none → alive = true) := by
  unfold isSessionAliveLocked
  split
  · next hnone =>
      refine ⟨rfl, ?_⟩
      rintro _ ⟨cmd, hcmd, _⟩
      rw [hnone] at hcmd
      cases hcmd
  · next cmd hcmd =>
      have hlisted : (∃ cmd, sess.cmd = some cmd ∧ w.startTime cmd.pid ≠ none) →
          w.startTime cmd.pid ≠ none := by
        rintro ⟨cmd', hcmd', hsome⟩
        cases hcmd.symm.trans hcmd'
        exact hsome
      split
      · next hpid =>
          have hnone : w.startTime cmd.pid = none := by
            rw [ProcessTable.startTime, if_pos hpid]
          exact ⟨rfl, fun _ hsome => absurd hnone (hlisted hsome)⟩
      · rw [Prog.meets_bind]
        apply (lookup_meets cmd.pid).mono
        rintro r _ ⟨rfl, _, hr⟩
        cases r with
        | error err => exact ⟨rfl, fun hreliable hsome => absurd (hr hreliable) (hlisted hsome)⟩
        | ok ts =>
          apply (lookup_meets sess.pid).mono
          rintro r _ ⟨rfl, hsteady, hr⟩
          cases r with
          | error err =>
            refine ⟨rfl, fun hreliable _ hpid hsome => ?_⟩
            rw [← hsteady _ hpid] at hsome
            exact absurd (hr hreliable) hsome
          | ok ts => exact ⟨rfl, fun _ _ _ _ => rfl⟩

/-- A session that is found valid is for the process that is listed; and one
whose collector is listed is found valid, if the lookups can be relied on. -/
theorem isValidLocked_meets (sess : DotnetGCSession) :
    (isValidLocked sess).Meets k.perform w fun valid w' => w' = w ∧
      (valid = true → w.startTime sess.pid = some sess.processStartTs ∧
        ∀ other, k.steady other → w.startTime other = k.table other) ∧
      (k.reliable → (∃ cmd, sess.cmd = some cmd ∧ w.startTime cmd.pid ≠ none) →
        k.steady sess.pid → k.table sess.pid = some sess.processStartTs → valid = true) := by
  unfold isValidLocked
  rw [Prog.meets_bind]
  apply (isSessionAliveLocked_meets sess).mono
  rintro alive _ ⟨rfl, halive⟩
  cases alive with
  | false =>
    refine ⟨rfl, by simp, fun hreliable hcmd hpid hts => ?_⟩
    exact halive hreliable hcmd hpid (by simp [hts])
  | true =>
    rw [if_pos rfl, isSameProcessIdentityLocked, Prog.meets_bind]
    apply (lookup_meets sess.pid).mono
    rintro r _ ⟨rfl, hsteady, hr⟩
    cases r with
    | error err =>
      refine ⟨rfl, by simp, fun hreliable _ hpid hts => ?_⟩
      cases (hr hreliable).symm.trans ((hsteady _ hpid).trans hts)
    | ok ts =>
      have hts : _ = some ts := hr
      refine ⟨rfl, fun hvalid => ⟨?_, hsteady⟩, fun _ _ hpid hsome => ?_⟩
      · rw [hts, beq_iff_eq.mp hvalid]
      · cases hts.symm.trans ((hsteady _ hpid).trans hsome)
        exact beq_self_eq_true _

end Checks

section Methods

variable {k : Setting} {d : DotnetGCAsync} {w : ProcessTable}

/-- `GracefulStop` of a session's collector changes that collector alone. -/
theorem Tracked.mem_stopped {pid : Pid} {sess : DotnetGCSession} {cmd : Cmd} (life : Life)
    (htracked : Tracked d w) (hsess : d.sessions.lookup pid = some sess)
    (hcmd : sess.cmd = some cmd) {c : Collector} (hmem : c ∈ w.collectors) :
    (c.Listed → c.pid ≠ cmd.pid) ∧ c.stopped cmd life = c ∨
      c.target = pid ∧ c.stopped cmd life = { c with life := life } := by
  unfold Collector.stopped
  split
  · next hstopped =>
      obtain ⟨hlisted, hpid⟩ := hstopped
      obtain ⟨-, -, own, hown, howncmd, htarget, hownlisted⟩ := htracked.held pid sess hsess
      cases hcmd.symm.trans howncmd
      obtain rfl := ProcessTable.eq_of_pid hmem hown hlisted hownlisted hpid
      exact .inr ⟨htarget, rfl⟩
  · next hother => exact .inl ⟨fun hlisted hpid => hother ⟨hlisted, hpid⟩, rfl⟩

theorem Tracked.stopped {pid : Pid} {sess : DotnetGCSession} {cmd : Cmd} {life : Life}
    {w' : ProcessTable} (htracked : Tracked d w) (hsess : d.sessions.lookup pid = some sess)
    (hcmd : sess.cmd = some cmd) (hlife : life ≠ .running)
    (hw' : w'.collectors = w.collectors.map (Collector.stopped cmd life)) :
    Tracked { d with sessions := d.sessions.erase pid } w' ∧
      OnlyAt pid d w { d with sessions := d.sessions.erase pid } w' := by
  have honly : OnlyAt pid d w { d with sessions := d.sessions.erase pid } w' := by
    refine fun other hne => ⟨AList.lookup_erase_ne hne, fun c hc => ?_⟩
    rw [hw', List.mem_map]
    constructor
    · rintro ⟨c₀, hmem, rfl⟩
      rcases htracked.mem_stopped life hsess hcmd hmem with ⟨_, heq⟩ | ⟨htarget, heq⟩
      · rwa [heq]
      · rw [heq] at hc
        exact absurd (hc.symm.trans htarget) hne
    · intro hmem
      rcases htracked.mem_stopped life hsess hcmd hmem with ⟨_, heq⟩ | ⟨htarget, _⟩
      · exact ⟨c, hmem, heq⟩
      · exact absurd (hc.symm.trans htarget) hne
  refine ⟨htracked.of_onlyAt honly ?_ ?_, honly⟩
  · intro c hmem hpid hrunning
    rw [hw', List.mem_map] at hmem
    obtain ⟨c₀, hmem, rfl⟩ := hmem
    rcases htracked.mem_stopped life hsess hcmd hmem with ⟨hother, heq⟩ | ⟨_, heq⟩
    · rw [heq] at hpid hrunning
      obtain ⟨sess', hsess', hcmd'⟩ := htracked.recorded c₀ hmem hrunning
      rw [hpid] at hsess'
      cases hsess.symm.trans hsess'
      cases hcmd.symm.trans hcmd'
      exact absurd rfl (hother (by simp [Collector.Listed, hrunning]))
    · rw [heq] at hrunning
      exact absurd hrunning hlife
  · intro sess' hsess'
    cases (AList.lookup_erase pid d.sessions).symm.trans hsess'

theorem stopLocked_meets (htracked : Tracked d w) (pid : Pid) :
    (d.stopLocked pid).Meets k.perform w fun out w' =>
      Tracked out.1 w' ∧ OnlyAt pid d w out.1 w' ∧ out.1.sessions.lookup pid = none := by
  unfold stopLocked
  split
  · next hnone => exact ⟨htracked, .refl, hnone⟩
  · next sess hsess =>
      obtain ⟨-, -, c, -, hc, -⟩ := htracked.held pid sess hsess
      split
      · next hcmd =>
          rw [hcmd] at hc
          cases hc
      · next cmd hcmd =>
          rintro r w' ⟨⟨_, life, hlife, hw'⟩, _⟩
          obtain ⟨htracked', honly⟩ := htracked.stopped hsess hcmd hlife hw'
          exact ⟨htracked', honly, AList.lookup_erase pid _⟩

theorem Tracked.started {pid : Pid} (sess : DotnetGCSession) {cmd : Cmd} {ts : Int}
    {w' : ProcessTable} (htracked : Tracked d w) (hnone : d.sessions.lookup pid = none)
    (hpos : 0 < pid) (hpid : sess.pid = pid) (hcmd : sess.cmd = some cmd)
    (hw' : w'.collectors = w.collectors ++ [⟨cmd.pid, pid, ts, .running⟩]) :
    Tracked { d with sessions := d.sessions.insert pid sess } w' ∧
      OnlyAt pid d w { d with sessions := d.sessions.insert pid sess } w' ∧
      Executing w' sess := by
  have hnew : ⟨cmd.pid, pid, ts, .running⟩ ∈ w'.collectors := by
    rw [hw']
    exact List.mem_append_right _ List.mem_cons_self
  have honly : OnlyAt pid d w { d with sessions := d.sessions.insert pid sess } w' := by
    refine fun other hne => ⟨AList.lookup_insert_ne hne, fun c hc => ?_⟩
    rw [hw', List.mem_append, List.mem_singleton]
    constructor
    · rintro (hmem | rfl)
      · exact hmem
      · exact absurd hc.symm hne
    · exact .inl
  refine ⟨htracked.of_onlyAt honly ?_ ?_, honly, ⟨_, hnew, hcmd, hpid.symm, rfl⟩⟩
  · intro c hmem htarget hrunning
    rw [hw', List.mem_append, List.mem_singleton] at hmem
    rcases hmem with hmem | rfl
    · obtain ⟨sess', hsess', _⟩ := htracked.recorded c hmem hrunning
      rw [htarget, hnone] at hsess'
      cases hsess'
    · exact ⟨sess, AList.lookup_insert _, hcmd⟩
  · intro sess' hsess'
    cases (AList.lookup_insert _).symm.trans hsess'
    exact ⟨hpid, hpos, _, hnew, hcmd, rfl, by simp [Collector.Listed]⟩

/-- What a session says of its process, for a process that neither comes nor
goes while the call runs. -/
def Current (k : Setting) (sess : DotnetGCSession) : Prop :=
  k.steady sess.pid → k.table sess.pid = some sess.processStartTs

theorem startLocked_meets (htracked : Tracked d w) {pid : Pid} (hpos : 0 < pid)
    (hnone : d.sessions.lookup pid = none) :
    (d.startLocked pid).Meets k.perform w fun out w' =>
      Tracked out.1 w' ∧ OnlyAt pid d w out.1 w' ∧
        ∀ sess, out.1.sessions.lookup pid = some sess → Current k sess ∧ Executing w' sess := by
  have hfailed : Tracked d w ∧ OnlyAt pid d w d w ∧ ∀ sess, d.sessions.lookup pid = some sess →
      Current k sess ∧ Executing w sess :=
    ⟨htracked, .refl, by simp [hnone]⟩
  unfold startLocked
  rintro dir _ ⟨rfl, _⟩
  cases dir with
  | error err => exact hfailed
  | ok _ =>
    apply (Prog.meets_bind _ _ _).mpr
    apply (lookup_meets pid).mono
    rintro started _ ⟨rfl, hsteady, hstarted⟩
    cases started with
    | error err => exact hfailed
    | ok startTs =>
      rintro tool w' ⟨htool, _⟩
      cases tool with
      | error err =>
        obtain rfl : w' = _ := htool
        exact hfailed
      | ok cmd =>
        obtain ⟨_, _, _, ts, hw'⟩ := htool
        obtain ⟨htracked', honly, hexecuting⟩ := htracked.started
          ⟨pid, startTs, some cmd, joinPath d.baseDir s!"gc_output_{pid}.json"⟩
          hnone hpos rfl rfl hw'
        refine ⟨htracked', honly, fun sess hsess => ?_⟩
        cases (AList.lookup_insert _).symm.trans hsess
        refine ⟨fun hpid => ?_, hexecuting⟩
        rw [← hsteady pid hpid]
        exact hstarted

/-- What a call leaves for a pid that is asked for: a session that was kept as
valid, or one with a new collector. -/
structure Settled (k : Setting) (pid : Pid) (d : DotnetGCAsync) (w : ProcessTable)
    (d' : DotnetGCAsync) (w' : ProcessTable) : Prop where
  current : ∀ sess, d'.sessions.lookup pid = some sess → Current k sess
  executing : ∀ sess, d'.sessions.lookup pid = some sess →
    Executing w' sess ∨ d.sessions.lookup pid = some sess ∧ (Executing w' sess ↔ Executing w sess)
  kept : ∀ sess, d.sessions.lookup pid = some sess → k.reliable → k.steady pid →
    k.table pid = some sess.processStartTs →
      d'.sessions.lookup pid = some sess ∧ (Executing w' sess ↔ Executing w sess)

theorem Tracked.valid_meets (htracked : Tracked d w) {pid : Pid} {sess : DotnetGCSession}
    (hsess : d.sessions.lookup pid = some sess) :
    (isValidLocked sess).Meets k.perform w fun valid w' => w' = w ∧
      (valid = true → Current k sess) ∧
      (k.reliable → k.steady pid → k.table pid = some sess.processStartTs → valid = true) := by
  obtain ⟨hpid, _, c, hmem, hcmd, _, hlisted⟩ := htracked.held pid sess hsess
  apply (isValidLocked_meets sess).mono
  rintro valid _ ⟨rfl, hvalid, hkept⟩
  refine ⟨rfl, fun h => ?_, fun hreliable => ?_⟩
  · obtain ⟨hts, hsteady⟩ := hvalid h
    intro hpid
    rw [← hsteady _ hpid, hts]
  · rw [← hpid]
    exact hkept hreliable ⟨_, hcmd, ProcessTable.startTime_listed hmem hlisted⟩

theorem Settled.of_started {pid : Pid} {d' : DotnetGCAsync} {w' : ProcessTable}
    (hnot : ∀ sess, d.sessions.lookup pid = some sess → k.reliable → k.steady pid →
      k.table pid ≠ some sess.processStartTs)
    (h : ∀ sess, d'.sessions.lookup pid = some sess → Current k sess ∧ Executing w' sess) :
    Settled k pid d w d' w' where
  current sess hsess := (h sess hsess).1
  executing sess hsess := .inl (h sess hsess).2
  kept sess hsess hreliable hpid hts := absurd hts (hnot sess hsess hreliable hpid)

theorem Settled.of_kept {pid : Pid} {sess : DotnetGCSession}
    (hsess : d.sessions.lookup pid = some sess) (hcurrent : Current k sess) :
    Settled k pid d w d w where
  current sess' hsess' := by
    cases hsess.symm.trans hsess'
    exact hcurrent
  executing sess' hsess' := .inr ⟨hsess', Iff.rfl⟩
  kept sess' hsess' _ _ _ := ⟨hsess', Iff.rfl⟩

theorem ensureStartedLocked_meets (htracked : Tracked d w) (pid : Pid) :
    (d.ensureStartedLocked pid).Meets k.perform w fun out w' =>
      Tracked out.1 w' ∧ OnlyAt pid d w out.1 w' ∧ Settled k pid d w out.1 w' := by
  unfold ensureStartedLocked
  split
  · next hneg =>
      have hnone : ∀ sess, d.sessions.lookup pid ≠ some sess := by
        intro sess hsess
        exact absurd (htracked.held pid sess hsess).2.1 (not_lt.mpr hneg)
      exact ⟨htracked, .refl, .of_started (fun sess hsess => absurd hsess (hnone sess))
        fun sess hsess => absurd hsess (hnone sess)⟩
  · next hpos =>
    rw [Prog.meets_bind, keepOrStopLocked]
    split
    · next hnone =>
        apply (startLocked_meets htracked (not_le.mp hpos) hnone).mono
        rintro out w' ⟨htracked', honly, hsettled⟩
        exact ⟨htracked', honly, .of_started (by simp [hnone]) hsettled⟩
    · next sess hsess =>
        rw [Prog.meets_bind]
        apply (htracked.valid_meets hsess).mono
        rintro valid _ ⟨rfl, hvalid, hkept⟩
        cases valid with
        | true => exact ⟨htracked, .refl, .of_kept hsess (hvalid rfl)⟩
        | false =>
          rw [if_neg (by decide), Prog.meets_bind]
          apply (stopLocked_meets htracked pid).mono
          rintro stopped w₁ ⟨htracked₁, honly₁, hnone₁⟩
          apply (startLocked_meets htracked₁ (not_le.mp hpos) hnone₁).mono
          rintro out w' ⟨htracked', honly, hsettled⟩
          refine ⟨htracked', honly₁.trans honly, .of_started ?_ hsettled⟩
          intro sess' hsess' hreliable hpid hts
          cases hsess.symm.trans hsess'
          cases hkept hreliable hpid hts

theorem followActive_meets (htracked : Tracked d w) (pid : Pid) :
    (followActive d pid).Meets k.perform w fun d' w' =>
      Tracked d' w' ∧ OnlyAt pid d w d' w' ∧ Settled k pid d w d' w' := by
  unfold followActive
  split
  · rw [Prog.meets_bind]
    exact ensureStartedLocked_meets htracked pid
  · next sess hsess =>
      rw [Prog.meets_bind]
      apply (htracked.valid_meets hsess).mono
      rintro valid _ ⟨rfl, hvalid, hkept⟩
      cases valid with
      | true => exact ⟨htracked, .refl, .of_kept hsess (hvalid rfl)⟩
      | false =>
        rw [if_neg (by decide), Prog.meets_bind, restartLocked, Prog.meets_bind]
        apply (stopLocked_meets htracked pid).mono
        rintro stopped w₁ ⟨htracked₁, honly₁, hnone₁⟩
        apply (ensureStartedLocked_meets htracked₁ pid).mono
        rintro out w' ⟨htracked', honly, hsettled⟩
        refine ⟨htracked', honly₁.trans honly, .of_started ?_ ?_⟩
        · intro sess' hsess' hreliable hpid hts
          cases hsess.symm.trans hsess'
          cases hkept hreliable hpid hts
        · intro sess' hsess'
          refine ⟨hsettled.current sess' hsess', ?_⟩
          rcases hsettled.executing sess' hsess' with hexecuting | ⟨hold, _⟩
          · exact hexecuting
          · rw [hnone₁] at hold
            cases hold

end Methods

section Loops

variable {k : Setting} {d d₁ d₂ : DotnetGCAsync} {w w₁ w₂ : ProcessTable} {pid : Pid}

theorem Tracked.executing_same {sess : DotnetGCSession} (htracked : Tracked d w)
    (hsess : d.sessions.lookup pid = some sess) (hsame : SameAt pid d₁ w₁ d₂ w₂) :
    Executing w₂ sess ↔ Executing w₁ sess := by
  obtain ⟨rfl, _⟩ := htracked.held pid sess hsess
  exact hsame.executing

theorem Settled.before (htracked : Tracked d w) (hsame : SameAt pid d w d₁ w₁)
    (hsettled : Settled k pid d₁ w₁ d₂ w₂) : Settled k pid d w d₂ w₂ where
  current := hsettled.current
  executing := by
    intro sess hsess
    rcases hsettled.executing sess hsess with hexecuting | ⟨hold, hiff⟩
    · exact .inl hexecuting
    · rw [hsame.session] at hold
      exact .inr ⟨hold, hiff.trans (htracked.executing_same hold hsame)⟩
  kept := by
    intro sess hsess hreliable hpid hts
    obtain ⟨hkept, hiff⟩ := hsettled.kept sess (hsame.session.trans hsess) hreliable hpid hts
    exact ⟨hkept, hiff.trans (htracked.executing_same hsess hsame)⟩

theorem Settled.after (htracked : Tracked d₁ w₁) (hsettled : Settled k pid d w d₁ w₁)
    (hsame : SameAt pid d₁ w₁ d₂ w₂) : Settled k pid d w d₂ w₂ where
  current := by
    intro sess hsess
    exact hsettled.current sess (hsame.session.symm.trans hsess)
  executing := by
    intro sess hsess
    have hsess₁ := hsame.session.symm.trans hsess
    rw [htracked.executing_same hsess₁ hsame]
    exact hsettled.executing sess hsess₁
  kept := by
    intro sess hsess hreliable hpid hts
    obtain ⟨hkept, hiff⟩ := hsettled.kept sess hsess hreliable hpid hts
    exact ⟨hsame.session.trans hkept, (htracked.executing_same hkept hsame).trans hiff⟩

theorem rangeKeys_meets {ν : Type} (m : GoMap Pid ν) :
    (rangeKeys m).Meets k.perform w fun keys w' =>
      w' = w ∧ keys.Nodup ∧ ∀ pid, pid ∈ keys ↔ pid ∈ m := by
  rintro order w' ⟨rfl, _⟩
  exact ⟨rfl, order.2.nodup_iff.mpr m.nodupKeys, fun pid => order.2.mem_iff⟩

theorem stopInactive_meets (htracked : Tracked d w) (active : GoMap Pid String)
    (keys : List Pid) :
    (keys.foldlM (stopInactive active) d).Meets k.perform w fun d' w' =>
      Tracked d' w' ∧ ∀ pid ∈ active, SameAt pid d w d' w' := by
  apply Prog.meets_foldlM fun _ d' w' => Tracked d' w' ∧ ∀ pid ∈ active, SameAt pid d w d' w'
  · rintro key rest d₁ w₁ ⟨htracked₁, hsame⟩
    unfold stopInactive
    split
    · exact ⟨htracked₁, hsame⟩
    · next hinactive =>
        rw [Prog.meets_bind]
        apply (stopLocked_meets htracked₁ key).mono
        rintro out w₂ ⟨htracked₂, honly, _⟩
        refine ⟨htracked₂, fun pid hactive => (hsame pid hactive).trans (honly pid ?_)⟩
        rintro rfl
        exact hinactive hactive
  · exact ⟨htracked, fun _ _ => .refl⟩

/-- The second loop: a pid is as it was until its round, and settled after
it. -/
theorem followActive_loop (htracked : Tracked d w) (htracked₁ : Tracked d₁ w₁)
    (active : GoMap Pid String) (hsame : ∀ pid ∈ active, SameAt pid d w d₁ w₁)
    {order : List Pid} (hnodup : order.Nodup) (horder : ∀ pid ∈ active, pid ∈ order) :
    (order.foldlM followActive d₁).Meets k.perform w₁ fun d' w' =>
      Tracked d' w' ∧ ∀ pid ∈ active, Settled k pid d w d' w' := by
  refine (Prog.meets_foldlM (fun rest d' w' => rest.Nodup ∧ Tracked d' w' ∧ ∀ pid ∈ active,
      (pid ∈ rest → SameAt pid d w d' w') ∧ (pid ∉ rest → Settled k pid d w d' w'))
    ?_ order ?_).mono ?_
  · rintro pid rest d₂ w₂ ⟨hrest, htracked₂, hpids⟩
    apply (followActive_meets htracked₂ pid).mono
    rintro d₃ w₃ ⟨htracked₃, honly, hsettled⟩
    rw [List.nodup_cons] at hrest
    refine ⟨hrest.2, htracked₃, fun other hactive => ⟨fun hin => ?_, fun hout => ?_⟩⟩
    · have hne : other ≠ pid := ne_of_mem_of_not_mem hin hrest.1
      exact ((hpids other hactive).1 (List.mem_cons_of_mem _ hin)).trans (honly other hne)
    · by_cases heq : other = pid
      · subst heq
        exact .before htracked ((hpids other hactive).1 List.mem_cons_self) hsettled
      · have hnot : other ∉ pid :: rest := by simp [heq, hout]
        exact ((hpids other hactive).2 hnot).after htracked₂ (honly other heq)
  · exact ⟨hnodup, htracked₁, fun pid hactive =>
      ⟨fun _ => hsame pid hactive, fun hout => absurd (horder pid hactive) hout⟩⟩
  · rintro d' w' ⟨_, htracked', hpids⟩
    exact ⟨htracked', fun pid hactive => (hpids pid hactive).2 List.not_mem_nil⟩

theorem reconcile_meets (htracked : Tracked d w) (active : GoMap Pid String) :
    (d.reconcile active).Meets k.perform w fun d' w' =>
      Tracked d' w' ∧ ∀ pid ∈ active, Settled k pid d w d' w' := by
  unfold reconcile
  simp only [Prog.meets_bind]
  apply (rangeKeys_meets d.sessions).mono
  rintro keys w ⟨rfl, _, _⟩
  apply (stopInactive_meets htracked active keys).mono
  rintro d₁ w₁ ⟨htracked₁, hsame⟩
  apply (rangeKeys_meets active).mono
  rintro order w₁ ⟨rfl, hnodup, horder⟩
  exact followActive_loop htracked htracked₁ active hsame hnodup fun pid => (horder pid).mpr

theorem stopAll_meets (htracked : Tracked d w) :
    d.stopAll.Meets k.perform w fun d' w' =>
      Tracked d' w' ∧ ∀ pid, d'.sessions.lookup pid = none := by
  unfold stopAll
  rw [Prog.meets_bind]
  apply (rangeKeys_meets d.sessions).mono
  rintro keys w ⟨rfl, _, hkeys⟩
  refine (Prog.meets_foldlM (fun rest d' w' => Tracked d' w' ∧
    ∀ pid, pid ∉ rest → d'.sessions.lookup pid = none) ?_ keys ?_).mono ?_
  · rintro pid rest d₁ w₁ ⟨htracked₁, hstopped⟩
    rw [Prog.meets_bind]
    apply (stopLocked_meets htracked₁ pid).mono
    rintro out w₂ ⟨htracked₂, honly, hnone⟩
    refine ⟨htracked₂, fun other hout => ?_⟩
    by_cases heq : other = pid
    · rw [heq]
      exact hnone
    · refine (honly other heq).session.trans (hstopped other ?_)
      simp [heq, hout]
  · refine ⟨htracked, fun pid hout => AList.lookup_eq_none.mpr ?_⟩
    rwa [← hkeys]
  · rintro d' w' ⟨htracked', hstopped⟩
    exact ⟨htracked', fun pid => hstopped pid List.not_mem_nil⟩

end Loops

section Histories

variable {d d' : DotnetGCAsync} {w w' : ProcessTable}

def New (d : DotnetGCAsync) (w : ProcessTable) : Prop := d.sessions = ∅ ∧ w.collectors = []

theorem Tracked.of_new (h : New d w) : Tracked d w where
  recorded := by simp [h.2]
  held := by simp [h.1]

theorem Tracked.passes (htracked : Tracked d w) (hpasses : Passes w w') : Tracked d w' := by
  obtain ⟨exits, _, hw'⟩ := hpasses
  constructor
  · intro c hmem hrunning
    rw [hw', List.mem_map] at hmem
    obtain ⟨c₀, hmem, rfl⟩ := hmem
    split at hrunning
    · cases hrunning
    · next hstays =>
        rw [if_neg hstays]
        exact htracked.recorded c₀ hmem hrunning
  · intro pid sess hsess
    obtain ⟨hpid, hpos, c, hmem, hcmd, htarget, hlisted⟩ := htracked.held pid sess hsess
    have hmem' := List.mem_map_of_mem (f := fun c : Collector =>
      if c.life = .running ∧ exits c then { c with life := Life.exited } else c) hmem
    rw [← hw'] at hmem'
    refine ⟨hpid, hpos, _, hmem', ?_⟩
    split
    · exact ⟨hcmd, htarget, by simp [Collector.Listed]⟩
    · exact ⟨hcmd, htarget, hlisted⟩

theorem call_meets {k : Setting} (htracked : Tracked d w) (call : Call) :
    (call.body d).Meets k.perform w fun out w' => Tracked out.1 w' := by
  cases call with
  | reconcile active =>
    rw [Call.body, Prog.meets_bind]
    exact (reconcile_meets htracked active).mono fun _ _ h => h.1
  | ensureStarted pid =>
    exact (ensureStartedLocked_meets htracked pid).mono fun _ _ h => h.1
  | stop pid => exact (stopLocked_meets htracked pid).mono fun _ _ h => h.1
  | stopAll =>
    rw [Call.body, Prog.meets_bind]
    exact (stopAll_meets htracked).mono fun _ _ h => h.1

def anySetting : Setting := ⟨fun _ => False, fun _ => none, False⟩

theorem anySetting_perform (op : HostOp) (w : ProcessTable) (r : op.Reply) (w' : ProcessTable)
    (h : Perform op w r w') : anySetting.perform op w r w' :=
  ⟨h, fun _ h => h.elim, fun h => h.elim⟩

/-- What calls of the four methods, one after the other, can come to from a new object,
while collectors exit and other processes come and go in between. -/
abbrev Reachable (d : DotnetGCAsync) (w : ProcessTable) : Prop :=
  History Perform Passes Call.body New d w

theorem Reachable.tracked (h : Reachable d w) : Tracked d w :=
  h.invariant Tracked (fun _ _ => .of_new) (fun _ _ _ => .passes) fun call _ _ htracked =>
    (call_meets htracked call).of_le anySetting_perform

/-- While the call runs, no process of `active` comes or goes. -/
def Steady (active : GoMap Pid String) (w : ProcessTable)
    (trace : Trace HostOp HostOp.Reply ProcessTable) (w' : ProcessTable) : Prop :=
  ∀ pid ∈ active, w'.startTime pid = w.startTime pid ∧
    ∀ e ∈ trace, e.before.startTime pid = w.startTime pid

theorem Tracked.targets_apart (h : Tracked d w) : w.collectors.Pairwise fun a b =>
    a.life = .running → b.life = .running → a.target ≠ b.target := by
  refine w.apart.imp_of_mem ?_
  intro a b ha hb hapart hra hrb htarget
  obtain ⟨sess, hsess, hcmd⟩ := h.recorded a ha hra
  obtain ⟨sess', hsess', hcmd'⟩ := h.recorded b hb hrb
  rw [htarget] at hsess
  cases hsess.symm.trans hsess'
  rw [hcmd] at hcmd'
  have hpid : a.pid = b.pid := by simpa using hcmd'
  exact hapart (by simp [Collector.Listed, hra]) (by simp [Collector.Listed, hrb]) hpid

theorem reconcile_settled {k : Setting} {active : GoMap Pid String}
    {trace : Trace HostOp HostOp.Reply ProcessTable} {result : Except String Unit}
    (htracked : Tracked d w)
    (hrun : Runs Perform (Call.body (.reconcile active) d) w trace (d', result) w')
    (hadmits : ∀ e ∈ trace, k.Admits e) {pid : Pid} (hactive : pid ∈ active) :
    Settled k pid d w d' w' := by
  apply (hrun.restrict k.Admits hadmits).of_meets (Q := fun out w' => Settled k pid d w out.1 w')
  apply (Prog.meets_bind _ _ _).mpr
  exact (reconcile_meets htracked active).mono fun _ _ h => h.2 pid hactive

/-- After every call of a history the running collectors are those of the
sessions, one per target at most; after `Reconcile` the sessions are for active
processes as they are now; after `StopAll` nothing runs. -/
theorem collectors_recorded {call : Call} {trace : Trace HostOp HostOp.Reply ProcessTable}
    {result : Except String Unit} (hreachable : Reachable d w)
    (hrun : Runs Perform (call.body d) w trace (d', result) w') :
    (∀ c ∈ w'.collectors, c.life = .running →
      ∃ sess, d'.sessions.lookup c.target = some sess ∧ sess.cmd = some ⟨c.pid⟩) ∧
    (w'.collectors.Pairwise fun a b =>
      a.life = .running → b.life = .running → a.target ≠ b.target) ∧
    (∀ active, call = .reconcile active → (∀ pid ∈ d'.sessions, pid ∈ active) ∧
      (Steady active w trace w' → ∀ pid sess, d'.sessions.lookup pid = some sess →
        w'.startTime pid = some sess.processStartTs)) ∧
    (call = .stopAll → ∀ c ∈ w'.collectors, c.life ≠ .running) := by
  have htracked := hreachable.tracked
  have htracked' : Tracked d' w' := (Reachable.tracked (.call hreachable hrun))
  refine ⟨htracked'.recorded, htracked'.targets_apart, ?_, ?_⟩
  · rintro active rfl
    have hkeys : ∀ pid ∈ d'.sessions, pid ∈ active := by
      have hbody : (Call.body (.reconcile active) d).Ensures fun out =>
          ∀ pid ∈ out.1.sessions, pid ∈ active := by
        rw [Call.body, Prog.ensures_bind]
        exact reconcile_ensures d active
      exact hrun.of_meets (Q := fun out _ => ∀ pid ∈ out.1.sessions, pid ∈ active) hbody.meets
    refine ⟨hkeys, fun hsteady pid sess hsess => ?_⟩
    have hactive : pid ∈ active := hkeys pid (AList.lookup_isSome.mp (by simp [hsess]))
    have hsettled := reconcile_settled (k := ⟨(· ∈ active), w.startTime, False⟩) htracked hrun
      (fun e he => ⟨fun pid hpid => (hsteady pid hpid).2 e he, fun h => h.elim⟩) hactive
    have hcurrent := hsettled.current sess hsess
    rw [Current, (htracked'.held pid sess hsess).1] at hcurrent
    rw [(hsteady pid hactive).1]
    exact hcurrent hactive
  · rintro rfl c hmem hrunning
    have hnone : ∀ pid, d'.sessions.lookup pid = none := by
      have hrun' := hrun.restrict anySetting.Admits fun e _ => ⟨fun _ h => h.elim, fun h => h.elim⟩
      apply hrun'.of_meets (Q := fun out w' => ∀ pid, out.1.sessions.lookup pid = none)
      apply (Prog.meets_bind _ _ _).mpr
      exact (stopAll_meets htracked).mono fun _ _ h => h.2
    obtain ⟨sess, hsess, _⟩ := htracked'.recorded c hmem hrunning
    rw [hnone] at hsess
    cases hsess

section Samples

def fiveActive : GoMap Pid String := AList.singleton 5 "shop"

def newManager : DotnetGCAsync := ⟨∅, "/gc"⟩

def serve (call : Call) (d : DotnetGCAsync) (w : ProcessTable) :
    Trace HostOp HostOp.Reply ProcessTable × (DotnetGCAsync × Except String Unit) × ProcessTable :=
  play healthyHost (call.body d) w

theorem serve_runs (call : Call) (d : DotnetGCAsync) (w : ProcessTable) :
    Runs Perform (call.body d) w (serve call d w).1 (serve call d w).2.1 (serve call d w).2.2 :=
  play_runs healthyHost_performs _ w

theorem reachable_newManager : Reachable newManager onlyFive := .start ⟨rfl, rfl⟩

def firstCycle : DotnetGCAsync × ProcessTable :=
  let out := serve (.reconcile fiveActive) newManager onlyFive
  (out.2.1.1, out.2.2)

theorem reachable_firstCycle : Reachable firstCycle.1 firstCycle.2 :=
  .call reachable_newManager (serve_runs (.reconcile fiveActive) newManager onlyFive)

theorem collectors_recorded_after_start :
    firstCycle.2.collectors = [⟨100, 5, 2, .running⟩] ∧
    ∃ sess, firstCycle.1.sessions.lookup 5 = some sess ∧ sess.cmd = some ⟨100⟩ ∧
      firstCycle.2.startTime 5 = some sess.processStartTs := by
  have hcollectors : firstCycle.2.collectors = [⟨100, 5, 2, .running⟩] := by rfl
  have hmem : ⟨100, 5, 2, .running⟩ ∈ firstCycle.2.collectors := by
    rw [hcollectors]
    exact List.mem_cons_self
  obtain ⟨hrecorded, _, hreconcile, _⟩ := collectors_recorded reachable_newManager
    (serve_runs (.reconcile fiveActive) newManager onlyFive)
  have hsteady : Steady fiveActive onlyFive
      (serve (.reconcile fiveActive) newManager onlyFive).1 firstCycle.2 := by
    intro pid hpid
    obtain rfl : pid = 5 := by simpa [fiveActive, AList.mem_keys] using hpid
    exact ⟨by decide, by decide⟩
  obtain ⟨sess, hsess, hcmd⟩ := hrecorded _ hmem rfl
  exact ⟨hcollectors, sess, hsess, hcmd, (hreconcile fiveActive rfl).2 hsteady 5 sess hsess⟩

end Samples

end Histories

end DotnetGCAsync

end YcAgent.Capture
