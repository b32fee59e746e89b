import YcAgent.Capture.DotnetGCSessions

/-!
Whether a .NET GC collector that has exited is replaced. A collector counts as
alive while its start time can be looked up, and that of an exited collector
can, since nobody has waited for it.
-/

namespace YcAgent.Capture

open Go Lib.Program

namespace DotnetGCAsync

variable {d d' : DotnetGCAsync} {w w' : ProcessTable}

/-- A start time could not be looked up only for a process that was not listed. So no
process that exists is taken to be gone. -/
def Reliable (trace : Trace HostOp HostOp.Reply ProcessTable) : Prop :=
  ∀ e ∈ trace, ∀ pid, failedLookup e = some pid → e.before.startTime pid = none

theorem startLocked_ok_iff (d : DotnetGCAsync) {pid : Pid} (hnone : pid ∉ d.sessions) :
    (d.startLocked pid).Ensures fun out => out.2 = .ok () ↔ pid ∈ out.1.sessions := by
  have hfailed (err : String) : (Except.error err : Except String Unit) = .ok () ↔
      pid ∈ d.sessions := by
    simp [hnone]
  unfold startLocked
  intro dir
  cases dir with
  | error err => exact hfailed _
  | ok _ =>
    intro started
    cases started with
    | error err => exact hfailed _
    | ok startTs =>
      intro tool
      cases tool with
      | error err => exact hfailed _
      | ok cmd => exact ⟨fun _ => (AList.mem_insert _).mpr (.inl rfl), fun _ => rfl⟩

/-- After `ensureStartedLocked` a pid is without a session exactly if its start
failed. -/
theorem ensureStartedLocked_ok_iff (d : DotnetGCAsync) {pid : Pid} (hpos : 0 < pid) :
    (d.ensureStartedLocked pid).Ensures fun out => out.2 = .ok () ↔ pid ∈ out.1.sessions := by
  unfold ensureStartedLocked
  rw [if_neg (not_le.mpr hpos), Prog.ensures_bind, keepOrStopLocked]
  split
  · next hnone => exact startLocked_ok_iff d (AList.lookup_eq_none.mp hnone)
  · next sess hsess =>
      rw [Prog.ensures_bind]
      refine Prog.ensures_of_forall ?_ _
      intro valid
      cases valid with
      | true =>
        have hmem : pid ∈ d.sessions := AList.lookup_isSome.mp (by simp [hsess])
        simp [hmem]
      | false =>
        rw [if_neg (by decide), Prog.ensures_bind]
        apply (stopLocked_ensures d pid).mono
        intro out hout
        exact startLocked_ok_iff out.1 fun hmem => ((hout pid).mp hmem).1 rfl

/-- Every active pid that has a session, its start not having failed, has one
whose collector is executing. -/
def Healed (active : GoMap Pid String) (d : DotnetGCAsync) (w : ProcessTable) : Prop :=
  ∀ pid ∈ active, ∀ sess, d.sessions.lookup pid = some sess → Executing w sess

/-- No collector of an active process has exited while the process lives
on. -/
def NoneExited (active : GoMap Pid String) (d : DotnetGCAsync) (w : ProcessTable) : Prop :=
  ∀ pid ∈ active, ∀ sess, d.sessions.lookup pid = some sess →
    w.startTime pid = some sess.processStartTs → Executing w sess

/-- The collectors of the active processes are executing after `Reconcile`
exactly if none of them had exited before it, its process living on. Such a
collector is not replaced, unless looking up a start time happens to fail. -/
theorem healed_iff_none_exited {active : GoMap Pid String}
    {trace : Trace HostOp HostOp.Reply ProcessTable} {result : Except String Unit}
    (hreachable : Reachable d w)
    (hrun : Runs Perform (Call.body (.reconcile active) d) w trace (d', result) w')
    (hsteady : Steady active w trace w') :
    (NoneExited active d w → Healed active d' w') ∧
    (Reliable trace → Healed active d' w' → NoneExited active d w) := by
  have htracked := hreachable.tracked
  have htracked' : Tracked d' w' := Reachable.tracked (.call hreachable hrun)
  have hadmits : ∀ e ∈ trace, Setting.Admits ⟨(· ∈ active), w.startTime, Reliable trace⟩ e :=
    fun e he => ⟨fun pid hpid => (hsteady pid hpid).2 e he, fun hreliable => hreliable e he⟩
  have hsettled : ∀ pid ∈ active,
      Settled ⟨(· ∈ active), w.startTime, Reliable trace⟩ pid d w d' w' :=
    fun _ hactive => reconcile_settled htracked hrun hadmits hactive
  constructor
  · intro hnone pid hactive sess hsess
    rcases (hsettled pid hactive).executing sess hsess with hexecuting | ⟨hold, hiff⟩
    · exact hexecuting
    · have hcurrent := (hsettled pid hactive).current sess hsess
      rw [Current, (htracked'.held pid sess hsess).1] at hcurrent
      exact hiff.mpr (hnone pid hactive sess hold (hcurrent hactive))
  · intro hreliable hhealed pid hactive sess hsess hts
    obtain ⟨hkept, hiff⟩ := (hsettled pid hactive).kept sess hsess hreliable hactive hts
    exact hiff.mp (hhealed pid hactive sess hkept)

def exitedTable : ProcessTable := firstCycle.2.allExit

theorem reachable_exited : Reachable firstCycle.1 exitedTable :=
  .env reachable_firstCycle (passes_allExit _)

abbrev secondCycle : Trace HostOp HostOp.Reply ProcessTable ×
    (DotnetGCAsync × Except String Unit) × ProcessTable :=
  serve (.reconcile fiveActive) firstCycle.1 exitedTable

theorem secondCycle_steady :
    Steady fiveActive exitedTable secondCycle.1 secondCycle.2.2 ∧ Reliable secondCycle.1 := by
  constructor
  · intro pid hpid
    obtain rfl : pid = 5 := by simpa [fiveActive, AList.mem_keys] using hpid
    exact ⟨by decide, by decide⟩
  · have hnone : ∀ e ∈ secondCycle.1, failedLookup e = none := by decide
    intro e he pid hfailed
    rw [hnone e he] at hfailed
    cases hfailed

/-- The next cycle keeps the session and its dead collector. -/
theorem exited_collector_kept : ∃ trace d' result w', Reachable firstCycle.1 exitedTable ∧
    Runs Perform (Call.body (.reconcile fiveActive) firstCycle.1) exitedTable trace
      (d', result) w' ∧
    Steady fiveActive exitedTable trace w' ∧ Reliable trace ∧
    w'.collectors = [⟨100, 5, 2, .exited⟩] ∧ ¬ Healed fiveActive d' w' := by
  refine ⟨_, _, _, _, reachable_exited,
    serve_runs (.reconcile fiveActive) firstCycle.1 exitedTable, secondCycle_steady.1,
    secondCycle_steady.2, rfl, ?_⟩
  intro hhealed
  obtain ⟨c, hmem, _, _, hrunning⟩ := hhealed 5 (by decide) _ rfl
  obtain rfl := List.mem_singleton.mp hmem
  cases hrunning

/-- A reconcile that finds the collector executing leaves it so. -/
theorem running_collector_kept :
    Healed fiveActive (serve (.reconcile fiveActive) firstCycle.1 firstCycle.2).2.1.1
      (serve (.reconcile fiveActive) firstCycle.1 firstCycle.2).2.2 := by
  have hsteady : Steady fiveActive firstCycle.2
      (serve (.reconcile fiveActive) firstCycle.1 firstCycle.2).1
      (serve (.reconcile fiveActive) firstCycle.1 firstCycle.2).2.2 := by
    intro pid hpid
    obtain rfl : pid = 5 := by simpa [fiveActive, AList.mem_keys] using hpid
    exact ⟨by decide, by decide⟩
  apply (healed_iff_none_exited reachable_firstCycle
    (serve_runs (.reconcile fiveActive) firstCycle.1 firstCycle.2) hsteady).1
  intro pid hpid sess hsess _
  obtain rfl : pid = 5 := by simpa [fiveActive, AList.mem_keys] using hpid
  cases hsess
  exact ⟨⟨100, 5, 2, .running⟩, List.mem_singleton.mpr rfl, rfl, rfl, rfl⟩

end DotnetGCAsync

end YcAgent.Capture
