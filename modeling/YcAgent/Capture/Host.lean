import YcAgent.Capture.Post
import YcAgent.Go.Filepath
import YcAgent.Go.Map
import YcAgent.Lib.Outcome

/-!
What an M3 cycle asks of its host while it looks after its per-process state:
the process table, the collector tool, the files of a Node.js process and the
uploads. The order in which Go visits a map is asked for as well, since the
language leaves it open.
-/

namespace YcAgent.Capture

open Go Lib.Program

abbrev Pid := Int

/-- A started command, known by the process id `GetPid` gives it. -/
structure Cmd where
  pid : Pid
  deriving DecidableEq, Repr

/-- The uploads of a cycle that keep no state of their own here. -/
inductive Artifact where
  | top | lp | dotnetThread | dotnetHeap | nodeProcessOverview | nodeHeapSummary
  | javaGC | javaThread | appLog | accessLog | healthCheck
  deriving DecidableEq, Repr

inductive HostOp where
  | rangeOrder (keys : List Pid)
  | getProcessStartTimestamp (pid : Pid)
  | ensureDir (path : Path)
  | startDotnetToolInBackground (pid : Pid) (args : List String) (dir : Path)
  | gracefulStop (cmd : Cmd)
  | uploadFromSession (pid : Pid) (logPath : Path) (suppressStartupWarnings : Bool)
  | mkdirAll (path : Path)
  | absPath (path : Path)
  | resolveNodeGCStdoutPath (pid : Pid)
  | nodeHasTraceGCFlag (pid : Pid)
  | hookAvailable (pid : Pid)
  | statSize (path : Path)
  | splitToFiles (stdoutPath : Path) (startOffset : Int) (gcOutPath appOutPath : Path)
      (writeAppLog : Bool)
  | dumpGC (pid : Pid) (durationMs : Int)
  | upload (artifact : Artifact) (pid : Pid)

def HostOp.Reply : HostOp → Type
  | .rangeOrder keys => { order : List Pid // order.Perm keys }
  | .getProcessStartTimestamp _ => Except String Int
  | .ensureDir _ => Except String Unit
  | .startDotnetToolInBackground _ _ _ => Except String Cmd
  | .gracefulStop _ => Except String Unit
  | .uploadFromSession _ _ _ => Result × Bool
  | .mkdirAll _ => Except String Unit
  | .absPath _ => Except String Path
  | .resolveNodeGCStdoutPath _ => Except String Path
  | .nodeHasTraceGCFlag _ => Bool
  | .hookAvailable _ => Bool
  | .statSize _ => Except String Int
  | .splitToFiles _ _ _ _ _ => Int × Result
  | .dumpGC _ _ => Except String Unit
  | .upload _ _ => Unit

abbrev HostProg := Prog HostOp HostOp.Reply

def ask (op : HostOp) : HostProg op.Reply := .perform op

@[simp] theorem ensures_ask (op : HostOp) (Q : op.Reply → Prop) :
    (ask op).Ensures Q ↔ ∀ r, Q r := Iff.rfl

/-- The keys of a map in the order a `range` loop visits them. -/
def rangeKeys {ν : Type} (m : GoMap Pid ν) : HostProg (List Pid) := do
  return (← ask (.rangeOrder m.keys)).1

theorem rangeKeys_ensures {ν : Type} (m : GoMap Pid ν) :
    (rangeKeys m).Ensures fun keys => ∀ pid, pid ∈ keys ↔ pid ∈ m := by
  intro order pid
  exact order.2.mem_iff

end YcAgent.Capture
