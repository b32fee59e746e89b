import YcAgent.Capture.Host

/-!
The Node.js GC capture and the tracker that remembers, per process and stdout
file, up to where the file has been read. In M3 mode the first cycle only
records the size of the file; later cycles read on from the stored offset.
-/

namespace YcAgent.Capture

open Go Lib.Program

structure NodeGCKey where
  pid : Pid
  path : Path
  deriving DecidableEq, Repr

structure NodeGCTracker where
  offsets : GoMap NodeGCKey Int

namespace NodeGCTracker

variable (t : NodeGCTracker)

def offset (pid : Pid) (path : Path) : Int := (t.offsets.lookup ⟨pid, path⟩).getD 0

def setOffset (pid : Pid) (path : Path) (offset : Int) : NodeGCTracker :=
  ⟨t.offsets.insert ⟨pid, path⟩ offset⟩

def initIfAbsent (pid : Pid) (path : Path) (offset : Int) : NodeGCTracker × Bool :=
  match t.offsets.lookup ⟨pid, path⟩ with
  | some _ => (t, false)
  | none => (⟨t.offsets.insert ⟨pid, path⟩ offset⟩, true)

def forget (pid : Pid) : NodeGCTracker := ⟨t.offsets.deleteWhere fun k => k.pid == pid⟩

def retainOnly (keep : GoMap Pid String) : NodeGCTracker :=
  ⟨t.offsets.deleteWhere fun k => !decide (k.pid ∈ keep)⟩

theorem mem_retainOnly (keep : GoMap Pid String) (k : NodeGCKey) :
    k ∈ (t.retainOnly keep).offsets ↔ k ∈ t.offsets ∧ k.pid ∈ keep := by
  simp [retainOnly]

end NodeGCTracker

structure NodeGC where
  pid : Pid
  outDir : Path
  tracker : Option NodeGCTracker
  m3 : Bool
  /-- The configured `NodejsGCCaptureDuration`, in nanoseconds. -/
  gcCaptureDuration : Int

namespace NodeGC

def nodeAbsOutPath (outDir name : Path) : HostProg (Except String Path) :=
  ask (.absPath (joinPath (if outDir = "" then "." else outDir) name))

def nodeMaxDumpGCMs : Int := 60000

variable (t : NodeGC)

def dumpGCDurationMs : Int :=
  let durationMs := t.gcCaptureDuration.tdiv 1000000
  if durationMs ≤ 0 then 30000
  else if durationMs > nodeMaxDumpGCMs then nodeMaxDumpGCMs
  else durationMs

def captureViaDumpGC (stdoutPath gcOutPath : Path) : HostProg Result := do
  let startSize :=
    match ← ask (.statSize stdoutPath) with
    | .ok size => size
    | .error _ => 0
  match ← ask (.dumpGC t.pid t.dumpGCDurationMs) with
  | .error err => return ⟨s!"node dumpGC failed for pid {t.pid}: {err}", false⟩
  | .ok () => return (← ask (.splitToFiles stdoutPath startSize gcOutPath "" false)).2

/-- Reads on from the tracked offset, or the whole file without a tracker. -/
def readOn (stdoutPath gcOutPath appOutPath : Path) : HostProg (Option NodeGCTracker × Result) := do
  let startOffset :=
    match t.tracker with
    | some tracker => tracker.offset t.pid stdoutPath
    | none => 0
  let (newOffset, result) ←
    ask (.splitToFiles stdoutPath startOffset gcOutPath appOutPath true)
  return (t.tracker.map fun tracker => tracker.setOffset t.pid stdoutPath newOffset, result)

def continuous (stdoutPath gcOutPath appOutPath : Path) :
    HostProg (Option NodeGCTracker × Result) := do
  match t.tracker with
  | none => t.readOn stdoutPath gcOutPath appOutPath
  | some tracker =>
  match ← ask (.statSize stdoutPath) with
  | .error _ => t.readOn stdoutPath gcOutPath appOutPath
  | .ok size =>
  match tracker.initIfAbsent t.pid stdoutPath size with
  | (tracker, true) =>
    let msg := s!"node gc: began M3 monitoring for pid {t.pid} at offset {size}; " ++
      "GC/app delta uploads from the next cycle"
    return (some tracker, ⟨msg, true⟩)
  | (_, false) => t.readOn stdoutPath gcOutPath appOutPath

/-- The stdout file cannot be followed: on demand the hook may still toggle the
tracing for a while, in M3 mode nothing is captured. -/
def fallback (stdoutPath : Except String Path) (hasFlag : Bool) (gcOutPath : Path) :
    HostProg Result := do
  let hook ← if t.m3 then pure false else ask (.hookAvailable t.pid)
  if hook then
    match stdoutPath with
    | .error err => return unreadable err
    | .ok path => if path = "" then return unreadable "<nil>" else t.captureViaDumpGC path gcOutPath
  else
    let reason :=
      match stdoutPath with
      | .error err => err ++ " - set -nodejsGCLogPath to override auto-discovery"
      | .ok _ =>
        if hasFlag then "continuous --trace-gc not detected"
        else "process was not started with --trace-gc"
    return ⟨s!"node gc log not captured for pid {t.pid}: {reason}", false⟩
where
  unreadable (err : String) : Result :=
    ⟨s!"node gc log unavailable for pid {t.pid}: --trace-gc not set and stdout is not a " ++
      s!"readable file ({err}) - set -nodejsGCLogPath to the file this process's stdout is " ++
      "redirected to (auto-discovery has no implementation on Windows, " ++
      "and isn't always reliable elsewhere), then retry", false⟩

/-- The tracker as the run leaves it, and what the run reports. -/
def run : HostProg (Option NodeGCTracker × Except String Result) := do
  match ← nodeAbsOutPath t.outDir "gc.log" with
  | .error err => return (t.tracker, .error err)
  | .ok gcOutPath =>
  match ← nodeAbsOutPath t.outDir "1.appLogs.nodeapp.log" with
  | .error err => return (t.tracker, .error err)
  | .ok appOutPath =>
  let stdoutPath ← ask (.resolveNodeGCStdoutPath t.pid)
  let hasFlag ← ask (.nodeHasTraceGCFlag t.pid)
  match hasFlag, stdoutPath with
  | true, .ok path =>
    if path ≠ "" then
      let (tracker, result) ← t.continuous path gcOutPath appOutPath
      return (tracker, .ok result)
    else return (t.tracker, .ok (← t.fallback (.ok path) true gcOutPath))
  | hasFlag, stdoutPath => return (t.tracker, .ok (← t.fallback stdoutPath hasFlag gcOutPath))

end NodeGC

end YcAgent.Capture
