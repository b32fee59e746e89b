import YcAgent.Capture.DotnetGCAsync
import YcAgent.Capture.NodeGC

/-!
The state an M3 agent keeps per process from one cycle to the next: the
offsets of Node.js stdout files, the sessions of the .NET GC collectors and the
marks of .NET processes whose GC log was seen ready. `captureAndTransmit` drops
what belongs to no process of its cycle, in a block that a cycle without
processes skips.
-/

namespace YcAgent.Agent

open Go Lib.Program Capture

structure M3App where
  asyncDotNetGCCapture : DotnetGCAsync
  dotnetGCReadySeen : GoMap Pid Bool
  nodeGCTracker : NodeGCTracker

def newM3App (baseDir : Path) : M3App := ⟨⟨∅, baseDir⟩, ∅, ⟨∅⟩⟩

/-- What a cycle finds: the discovered processes with their application names,
the runtime detected for each, and the configuration it reads. -/
structure Cycle where
  pids : GoMap Pid String
  appRuntime : Pid → String
  healthChecks : List String
  nodejsGCCaptureDuration : Int

namespace Cycle

/-- The first loop: the processes that run on .NET. -/
def dotnetPIDs (c : Cycle) : GoMap Pid String :=
  c.pids.collectWhere fun pid => c.appRuntime pid == "dotnet"

theorem mem_dotnetPIDs (c : Cycle) (pid : Pid) :
    pid ∈ c.dotnetPIDs ↔ pid ∈ c.pids ∧ c.appRuntime pid = "dotnet" := by
  simp [dotnetPIDs]

end Cycle

namespace M3App

variable (m3 : M3App)

def uploadDotnetGCM3 (pid : Pid) : HostProg M3App := do
  match m3.asyncDotNetGCCapture.getLogPath pid with
  | none => return m3
  | some gcPath =>
    let wasReady := (m3.dotnetGCReadySeen.lookup pid).getD false
    let (_, uploaded) ← ask (.uploadFromSession pid gcPath (!wasReady))
    if uploaded then
      return { m3 with dotnetGCReadySeen := m3.dotnetGCReadySeen.insert pid true }
    else return m3

def captureNodeM3 (c : Cycle) (pid : Pid) : HostProg M3App := do
  match ← ask (.mkdirAll (joinPath "yc-node-m3" (toString pid))) with
  | .error _ => return m3
  | .ok () =>
    let nodeGC : NodeGC :=
      { pid := pid
        outDir := joinPath "yc-node-m3" (toString pid)
        tracker := some m3.nodeGCTracker
        m3 := true
        gcCaptureDuration := c.nodejsGCCaptureDuration }
    let (tracker, _) ← nodeGC.run
    ask (.upload .nodeProcessOverview pid)
    ask (.upload .nodeHeapSummary pid)
    return { m3 with nodeGCTracker := tracker.getD m3.nodeGCTracker }

/-- The captures that depend on the runtime of the process. -/
def captureRuntime (c : Cycle) (pid : Pid) : HostProg M3App :=
  match c.appRuntime pid with
  | "dotnet" => do
    let m3 ← m3.uploadDotnetGCM3 pid
    ask (.upload .dotnetThread pid)
    ask (.upload .dotnetHeap pid)
    return m3
  | "nodejs" => m3.captureNodeM3 c pid
  | _ => do
    ask (.upload .javaGC pid)
    ask (.upload .javaThread pid)
    return m3

/-- One round of the loop over the processes. -/
def captureProcess (c : Cycle) (m3 : M3App) (pid : Pid) : HostProg M3App := do
  let m3 ← m3.captureRuntime c pid
  ask (.upload .appLog pid)
  ask (.upload .accessLog pid)
  if (c.pids.lookup pid).getD "" ∈ c.healthChecks then
    ask (.upload .healthCheck pid)
    return m3
  else return m3

/-- The block of `captureAndTransmit` for a cycle that found processes. -/
def captureProcesses (c : Cycle) : HostProg M3App := do
  let async ← m3.asyncDotNetGCCapture.reconcile c.dotnetPIDs
  let m3 := { m3 with asyncDotNetGCCapture := async }
  let m3 ← (← rangeKeys c.pids).foldlM (captureProcess c) m3
  return { m3 with
    dotnetGCReadySeen := m3.dotnetGCReadySeen.deleteWhere fun pid => !decide (pid ∈ c.dotnetPIDs)
    nodeGCTracker := m3.nodeGCTracker.retainOnly c.pids }

def captureAndTransmit (c : Cycle) : HostProg M3App := do
  ask (.upload .top 0)
  ask (.upload .lp 0)
  if 0 < c.pids.keys.length then m3.captureProcesses c else return m3

/-- The app keeps state for the processes of the cycle only: offsets for any of
them, sessions and ready marks for those on .NET. -/
structure Confined (c : Cycle) : Prop where
  offsets : ∀ key ∈ m3.nodeGCTracker.offsets, key.pid ∈ c.pids
  sessions : ∀ pid ∈ m3.asyncDotNetGCCapture.sessions, pid ∈ c.dotnetPIDs
  ready : ∀ pid ∈ m3.dotnetGCReadySeen, pid ∈ c.dotnetPIDs

/-- Nothing is kept for the process id: no offset in a file of it, no session and no
ready mark. -/
structure Forgotten (pid : Pid) : Prop where
  offsets : ∀ key ∈ m3.nodeGCTracker.offsets, key.pid ≠ pid
  sessions : pid ∉ m3.asyncDotNetGCCapture.sessions
  ready : pid ∉ m3.dotnetGCReadySeen

variable {m3}

theorem uploadDotnetGCM3_keeps (m3 : M3App) (pid : Pid) :
    (m3.uploadDotnetGCM3 pid).Ensures fun m3' =>
      m3'.asyncDotNetGCCapture = m3.asyncDotNetGCCapture := by
  unfold uploadDotnetGCM3
  split
  · rfl
  · rintro ⟨_, uploaded⟩
    cases uploaded with
    | true => rfl
    | false => rfl

theorem captureNodeM3_keeps (m3 : M3App) (c : Cycle) (pid : Pid) :
    (m3.captureNodeM3 c pid).Ensures fun m3' =>
      m3'.asyncDotNetGCCapture = m3.asyncDotNetGCCapture := by
  rw [captureNodeM3, Prog.ensures_bind, ensures_ask]
  intro made
  split
  · rfl
  · rw [Prog.ensures_bind]
    refine Prog.ensures_of_forall ?_ _
    intro out _ _
    rfl

theorem captureRuntime_keeps (m3 : M3App) (c : Cycle) (pid : Pid) :
    (m3.captureRuntime c pid).Ensures fun m3' =>
      m3'.asyncDotNetGCCapture = m3.asyncDotNetGCCapture := by
  unfold captureRuntime
  split
  · rw [Prog.ensures_bind]
    apply (uploadDotnetGCM3_keeps m3 pid).mono
    intro m3' hkept _ _
    exact hkept
  · exact captureNodeM3_keeps m3 c pid
  · intro _ _
    rfl

theorem captureProcess_keeps (c : Cycle) (m3 : M3App) (pid : Pid) :
    (captureProcess c m3 pid).Ensures fun m3' =>
      m3'.asyncDotNetGCCapture = m3.asyncDotNetGCCapture := by
  rw [captureProcess, Prog.ensures_bind]
  apply (captureRuntime_keeps m3 c pid).mono
  intro m3' hkept _ _
  split
  · exact fun _ => hkept
  · exact hkept

/-- A cycle with processes drops what belongs to none of them: `Reconcile` the
sessions, before the captures, and two loops the rest, after them. -/
theorem captureProcesses_confined (m3 : M3App) (c : Cycle) :
    (m3.captureProcesses c).Ensures fun m3' => m3'.Confined c := by
  simp only [captureProcesses, Prog.ensures_bind]
  apply (DotnetGCAsync.reconcile_ensures m3.asyncDotNetGCCapture c.dotnetPIDs).mono
  intro async hasync
  refine Prog.ensures_of_forall ?_ _
  intro order
  have hloop : (order.foldlM (captureProcess c)
      { m3 with asyncDotNetGCCapture := async }).Ensures
        fun m3' => m3'.asyncDotNetGCCapture = async := by
    apply Prog.ensures_foldlM (fun m3' : M3App => m3'.asyncDotNetGCCapture = async) rfl
    intro m3' pid _ hkept
    apply (captureProcess_keeps c m3' pid).mono
    intro m3'' hsame
    exact hsame.trans hkept
  apply hloop.mono
  intro m3' hkept
  constructor
  · intro key hkey
    exact ((NodeGCTracker.mem_retainOnly _ _ _).mp hkey).2
  · intro pid hpid
    apply hasync pid
    rw [← hkept]
    exact hpid
  · intro pid hpid
    simpa using ((GoMap.mem_deleteWhere _ _ _).mp hpid).2

theorem confined_of_no_pids_iff (m3 : M3App) {c : Cycle} (hnone : ∀ pid, pid ∉ c.pids) :
    m3.Confined c ↔ ∀ pid, m3.Forgotten pid := by
  have hdotnet (pid : Pid) : pid ∉ c.dotnetPIDs := by
    intro hpid
    exact hnone pid ((c.mem_dotnetPIDs pid).mp hpid).1
  constructor
  · intro h pid
    refine ⟨?_, ?_, ?_⟩
    · intro key hkey _
      exact hnone key.pid (h.offsets key hkey)
    · intro hpid
      exact hdotnet pid (h.sessions pid hpid)
    · intro hpid
      exact hdotnet pid (h.ready pid hpid)
  · intro h
    refine ⟨?_, ?_, ?_⟩
    · intro key hkey
      exact absurd rfl ((h key.pid).offsets key hkey)
    · intro pid hpid
      exact absurd hpid (h pid).sessions
    · intro pid hpid
      exact absurd hpid (h pid).ready

theorem Confined.forgotten {c : Cycle} (h : m3.Confined c) {pid : Pid} (hpid : pid ∉ c.pids) :
    m3.Forgotten pid where
  offsets key hkey heq := hpid (heq ▸ h.offsets key hkey)
  sessions hmem := hpid ((c.mem_dotnetPIDs pid).mp (h.sessions pid hmem)).1
  ready hmem := hpid ((c.mem_dotnetPIDs pid).mp (h.ready pid hmem)).1

/-- After `captureAndTransmit` the state is confined to the cycle exactly when
the cycle found a process, or nothing was kept before it. -/
theorem captureAndTransmit_confined_iff (m3 : M3App) (c : Cycle) :
    (m3.captureAndTransmit c).Ensures fun m3' =>
      m3'.Confined c ↔ (∃ pid, pid ∈ c.pids) ∨ ∀ pid, m3.Forgotten pid := by
  intro _ _
  split
  · next hsome =>
      obtain ⟨pid, hpid⟩ := List.exists_mem_of_length_pos hsome
      apply (captureProcesses_confined m3 c).mono
      intro m3' hconfined
      exact iff_of_true hconfined (.inl ⟨pid, hpid⟩)
  · next hnone =>
      have hempty : ∀ pid, pid ∉ c.pids := by
        intro pid hpid
        exact hnone (List.length_pos_of_mem hpid)
      constructor
      · intro hconfined
        exact .inr ((confined_of_no_pids_iff m3 hempty).mp hconfined)
      · rintro (⟨pid, hpid⟩ | hforgotten)
        · exact absurd hpid (hempty pid)
        · exact (confined_of_no_pids_iff m3 hempty).mpr hforgotten

end M3App

/-- A cycle that has taken place, with the states around its
`captureAndTransmit`. -/
structure CycleRecord where
  cycle : Cycle
  before : M3App
  after : M3App

/-- The cycles of an agent since it was started, whatever its host answers. -/
inductive Cycles (baseDir : Path) : List CycleRecord → M3App → Prop
  | start : Cycles baseDir [] (newM3App baseDir)
  | cycle {done : List CycleRecord} {m3 m3' : M3App} (c : Cycle) : Cycles baseDir done m3 →
      (m3.captureAndTransmit c).Returns m3' → Cycles baseDir (done ++ [⟨c, m3, m3'⟩]) m3'

/-- In every history of cycles: after a cycle the state is confined to the
processes of that cycle exactly when it found one, or nothing was kept before
it; and then nothing is left of a process it did not find. -/
theorem state_confined_iff (baseDir : Path) (done : List CycleRecord) (m3 : M3App)
    (hcycles : Cycles baseDir done m3) :
    ∀ r ∈ done,
      (r.after.Confined r.cycle ↔
        (∃ pid, pid ∈ r.cycle.pids) ∨ ∀ pid, r.before.Forgotten pid) ∧
      ((∃ pid, pid ∈ r.cycle.pids) ∨ (∀ pid, r.before.Forgotten pid) →
        ∀ pid, pid ∉ r.cycle.pids → r.after.Forgotten pid) := by
  induction hcycles with
  | start =>
    intro r hr
    cases hr
  | @cycle done m3 m3' c _ hreturns ih =>
    intro r hr
    rcases List.mem_append.mp hr with hr | hr
    · exact ih r hr
    · obtain rfl := List.mem_singleton.mp hr
      have hiff := (M3App.captureAndTransmit_confined_iff m3 c).of_returns hreturns
      refine ⟨hiff, ?_⟩
      intro hcondition pid hpid
      exact (hiff.mpr hcondition).forgotten hpid

def workingHost : (op : HostOp) → op.Reply
  | .rangeOrder keys => ⟨keys, .refl keys⟩
  | .getProcessStartTimestamp _ => .ok 1
  | .ensureDir _ => .ok ()
  | .startDotnetToolInBackground _ _ _ => .ok ⟨9⟩
  | .gracefulStop _ => .ok ()
  | .uploadFromSession _ _ _ => (⟨"", true⟩, true)
  | .mkdirAll _ => .ok ()
  | .absPath path => .ok path
  | .resolveNodeGCStdoutPath _ => .ok "out.log"
  | .nodeHasTraceGCFlag _ => true
  | .hookAvailable _ => false
  | .statSize _ => .ok 100
  | .splitToFiles _ _ _ _ _ => (100, ⟨"", true⟩)
  | .dumpGC _ _ => .ok ()
  | .upload _ _ => ()

def twoProcesses : Cycle where
  pids := (AList.singleton 7 "web").insert 8 "shop"
  appRuntime pid := if pid = 8 then "dotnet" else "nodejs"
  healthChecks := []
  nodejsGCCaptureDuration := 0

def noProcesses : Cycle := { twoProcesses with pids := ∅ }

def afterTwo : M3App := ((newM3App "/gc").captureAndTransmit twoProcesses).runWith workingHost

theorem cycles_two : Cycles "/gc" [⟨twoProcesses, newM3App "/gc", afterTwo⟩] afterTwo :=
  .cycle twoProcesses .start (Prog.returns_runWith _ _)

theorem cycles_two_none : Cycles "/gc"
    [⟨twoProcesses, newM3App "/gc", afterTwo⟩, ⟨noProcesses, afterTwo, afterTwo⟩] afterTwo :=
  .cycle noProcesses cycles_two (Prog.returns_runWith workingHost _)

/-- Both processes are gone in the second cycle, and the offset of the one and
the session and the ready mark of the other are still there after it. -/
theorem state_outlives_processes : ∃ done m3, Cycles "/gc" done m3 ∧ ∃ r ∈ done,
    7 ∉ r.cycle.pids ∧ r.after.nodeGCTracker.offsets.lookup ⟨7, "out.log"⟩ = some 100 ∧
      8 ∉ r.cycle.pids ∧ 8 ∈ r.after.asyncDotNetGCCapture.sessions ∧
      r.after.dotnetGCReadySeen.lookup 8 = some true ∧ ¬ r.after.Confined r.cycle := by
  have hoffset : afterTwo.nodeGCTracker.offsets.lookup ⟨7, "out.log"⟩ = some 100 := by
    decide +kernel
  refine ⟨_, _, cycles_two_none, ⟨noProcesses, afterTwo, afterTwo⟩, by simp, by decide, hoffset,
    by decide, by decide +kernel, by decide +kernel, ?_⟩
  intro hconfined
  have hmem : (⟨7, "out.log"⟩ : NodeGCKey) ∈ afterTwo.nodeGCTracker.offsets := by
    rw [← AList.lookup_isSome, hoffset]
    rfl
  exact absurd (hconfined.offsets _ hmem) (by decide)

theorem two_processes_confined : ∃ done m3, Cycles "/gc" done m3 ∧ ∃ r ∈ done,
    7 ∈ r.cycle.pids ∧ r.after.Confined r.cycle := by
  refine ⟨_, _, cycles_two, _, List.mem_cons_self, by decide, ?_⟩
  apply (state_confined_iff "/gc" _ _ cycles_two _ List.mem_cons_self).1.mpr
  exact .inl ⟨7, by decide⟩

end YcAgent.Agent
