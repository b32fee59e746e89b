import YcAgent.Agent.ActionStatus
import YcAgent.Agent.AppLogCycle
import YcAgent.Agent.Attendance
import YcAgent.Agent.FinEndpoint
import YcAgent.Agent.Forward
import YcAgent.Agent.Tags
import YcAgent.Agent.WorkDir
import YcAgent.Capture.AppLogNames
import YcAgent.Capture.BoomiOutput
import YcAgent.Capture.CIMProcesses
import YcAgent.Capture.DotnetGCHealing
import YcAgent.Capture.DotnetGCUpload
import YcAgent.Capture.ExtendedData
import YcAgent.Capture.GCGlob
import YcAgent.Capture.GCLogPanic
import YcAgent.Capture.HeapUpload
import YcAgent.Capture.JStackAttempts
import YcAgent.Capture.LinePositions
import YcAgent.Capture.NodeGCTail
import YcAgent.Capture.NodeHookCall
import YcAgent.Capture.NodeReportSecrecy
import YcAgent.Capture.NodeSignal
import YcAgent.Capture.NodeWindows
import YcAgent.Capture.TailGrowth
import YcAgent.Capture.TailTruncation
import YcAgent.Capture.ThreadDump
import YcAgent.Config.FileValues
import YcAgent.Executils.CaptureEnv
import YcAgent.Executils.GracefulStop
import YcAgent.Executils.ShellHelper
import YcAgent.Executils.TempPath
import YcAgent.Logger.Redirect
import YcAgent.Ondemand.GCPathDecorators
import YcAgent.Ondemand.GCPathOutputs
import YcAgent.Ondemand.Join
