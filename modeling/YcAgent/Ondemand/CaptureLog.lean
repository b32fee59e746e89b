import YcAgent.Config.EffectiveFlags
import YcAgent.Capture.GCLog
import YcAgent.Lib.Program

/-!
`FullCapture` with every message it writes through the logger. The captures, the
server and the file system are operations; what they answer goes into the
messages as the source formats it. The function never hands the API key or the
Boomi password on: the callees read them from the configuration.
-/

namespace YcAgent.Ondemand.CaptureLog

open Go Config Lib.Program

inductive CaptureOp where
  | now
  | getOutboundIP
  | mkdir (dir : String)
  | getwd
  | chdir (dir : String)
  | removeAll (dir : String)
  | compressFolder (dir : String)
  | startWritingToFile
  | stopWritingToFile
  | writeMetaInfo (pid : Int) (appName endpoint tags : String)
  | isProcessExists (pid : Int)
  | updatePaths (pid : Int) (gcPath tdPath hdPath : String)
  | getGCLogFile (pid : Int)
  | getDockerID (pid : Int)
  | captureBoomiDetails (endpoint : String) (pid : Int)
  | getAppRuntime (pid : Int)
  | nodeGCStdoutPath (pid : Int)
  | goCapture (endpoint task : String) (paths : List String)
  | result (task : String)
  | discoverOpenedLogFiles (pid : Int)
  | filepathGlob (pattern : String)
  | abs (path : String)
  | heapDump (endpoint : String) (hd : Bool)
  | customCmd (endpoint : String) (index : Nat) (urlParams cmd : String)
  | requestFin (endpoint : String)
  | printResult (resp : String)
  | postAgentLog (endpoint : String)
  | runCaptureCmd (pid : Int) (cmd : String)
  | log (level : Int) (text : String)
  | stdLog (text : String)

namespace CaptureOp

/-- An `Option` is an error that may be nil. The time comes with the time zone in
Base64. -/
def Reply : CaptureOp → Type
  | now => String × String
  | getOutboundIP => String
  | mkdir _ | chdir _ | removeAll _ => Option String
  | getwd => Except String String
  | compressFolder _ => Except String String
  | startWritingToFile | stopWritingToFile => Option String
  | writeMetaInfo _ _ _ _ => String × Bool × String
  | isProcessExists _ => Bool
  | updatePaths _ _ _ _ => String × String × String
  | getGCLogFile _ => Except String String
  | getDockerID _ | getAppRuntime _ => String
  | captureBoomiDetails _ _ => Unit
  | nodeGCStdoutPath _ => Option String
  | goCapture _ _ _ => Unit
  | result _ => Bool × String
  | discoverOpenedLogFiles _ => List String × Option String
  | filepathGlob _ => Except String (List String)
  | abs _ => Except String String
  | heapDump _ _ => Bool × String
  | customCmd _ _ _ _ => Except String (Bool × String)
  | requestFin _ => String × Option String
  | printResult _ => String × String
  | postAgentLog _ => String × Bool
  | runCaptureCmd _ _ => Option String
  | log _ _ | stdLog _ => Unit

end CaptureOp

abbrev CaptureProg := Prog CaptureOp CaptureOp.Reply

def askCapture (op : CaptureOp) : CaptureProg op.Reply := .perform op

def debugLevel : Int := 0
def infoLevel : Int := 1
def warnLevel : Int := 2
def errorLevel : Int := 3

def logInfo (text : String) : CaptureProg Unit := askCapture (.log infoLevel text)

/-- What `ProcessPids` and `FullCapture` read from the configuration; `flags` is
`EffectiveFlags()`. -/
structure CaptureSettings where
  flags : String
  appName : String
  captureCmd : String
  tags : String
  server : String
  storagePath : String
  m3 : Bool
  deferDelete : Bool
  onlyCapture : Bool
  minimalTouch : Bool
  log2File : Bool
  gcPath : String
  tdPath : String
  hdPath : String
  boomi : Bool
  boomiUrl : String
  appLog : String
  appLogs : List String
  appLogLineCount : Int
  edScript : String
  edDataFolder : String
  commands : List (String × String)

section Read

variable (values : Field → Value)

def option (name : String) : Value :=
  match optionFields.find? fun field => field.name = name with
  | some field => values field
  | none => .str ""

def stringOption (name : String) : String :=
  match option values name with
  | .str s => s
  | _ => ""

def boolOption (name : String) : Bool :=
  match option values name with
  | .bool b => b
  | _ => false

def listOption (name : String) : List String :=
  match option values name with
  | .strings items => items.getD []
  | _ => []

def captureSettings (formatV : Value → String) : CaptureSettings where
  flags := effectiveFlags formatV (options values)
  appName := stringOption values "AppName"
  captureCmd := stringOption values "CaptureCmd"
  tags := stringOption values "Tags"
  server := stringOption values "Server"
  storagePath := stringOption values "StoragePath"
  m3 := boolOption values "M3"
  deferDelete := boolOption values "DeferDelete"
  onlyCapture := boolOption values "OnlyCapture"
  minimalTouch := boolOption values "MinimalTouch"
  log2File := stringOption values "LogFilePath" ≠ ""
  gcPath := stringOption values "GCPath"
  tdPath := stringOption values "ThreadDumpPath"
  hdPath := stringOption values "HeapDumpPath"
  boomi := boolOption values "Boomi"
  boomiUrl := stringOption values "BoomiUrl"
  appLog := stringOption values "AppLog"
  appLogs := listOption values "AppLogs"
  appLogLineCount :=
    match option values "AppLogLineCount" with
    | .int n => n
    | _ => 0
  edScript := stringOption values "EdScript"
  edDataFolder := stringOption values "EdDataFolder"
  commands :=
    match option values "Commands" with
    | .commands items => items.getD []
    | _ => []

variable {values} {values' : Field → Value}

private theorem sensitive_name : ∀ field ∈ optionFields, field.Sensitive →
    field.name = "ApiKey" ∨ field.name = "BoomiPassword" := by
  decide +kernel

theorem option_alike (h : SameButSecrets values values') {name : String}
    (hkey : name ≠ "ApiKey") (hpassword : name ≠ "BoomiPassword") :
    option values name = option values' name := by
  unfold option
  cases hfind : optionFields.find? fun field => field.name = name with
  | none => rfl
  | some field =>
    have hfield := List.mem_of_find?_eq_some hfind
    have hname : field.name = name := by simpa using List.find?_some hfind
    apply h.same field hfield
    intro hsensitive
    rcases sensitive_name field hfield hsensitive with hsecret | hsecret
    · exact hkey (hname.symm.trans hsecret)
    · exact hpassword (hname.symm.trans hsecret)

/-- No secret is among what `FullCapture` reads. -/
theorem captureSettings_alike (h : SameButSecrets values values') (formatV : Value → String) :
    captureSettings values formatV = captureSettings values' formatV := by
  have hoption {name : String} (hkey : name ≠ "ApiKey") (hpassword : name ≠ "BoomiPassword") :
      option values name = option values' name := option_alike h hkey hpassword
  have hstring {name : String} (hkey : name ≠ "ApiKey") (hpassword : name ≠ "BoomiPassword") :
      stringOption values name = stringOption values' name := by
    rw [stringOption, stringOption, hoption hkey hpassword]
  have hbool {name : String} (hkey : name ≠ "ApiKey") (hpassword : name ≠ "BoomiPassword") :
      boolOption values name = boolOption values' name := by
    rw [boolOption, boolOption, hoption hkey hpassword]
  have hlist : listOption values "AppLogs" = listOption values' "AppLogs" := by
    rw [listOption, listOption, hoption (by decide) (by decide)]
  simp [captureSettings, effectiveFlags_alike formatV h, hoption, hstring, hbool, hlist]

end Read

def dashes : String := "\n\n--------------------------------\n"

def transmitted (title : String) (ok : Bool) (msg : String) : String :=
  title ++ s!"\nIs transmission completed: {ok}\nResp: {msg}" ++ dashes

/-- Waits for a task and logs its result. -/
def readResult (task : String) (format : Bool → String → String) : CaptureProg Bool := do
  logInfo s!"Reading result from {task} channel"
  let (ok, msg) ← askCapture (.result task)
  logInfo (format ok msg)
  return ok

def report (task title : String) : CaptureProg Unit := do
  let _ ← readResult task (transmitted title)
  return ()

/-- `A.3` and the deferred closing: whether a log file is open, and the error. -/
def openAgentLog (o : CaptureSettings) : CaptureProg (Bool × Option String) := do
  if o.m3 then return (false, none)
  else
    let err : Option String ← askCapture .startWritingToFile
    match err with
    | some e => logInfo s!"Failed to start writing to file error={e}"
    | none => pure ()
    logInfo "yc-360 script version: 3.9"
    logInfo ("Effective configuration ((default)=matches built-in default, " ++
      "(set)=differs from default):\n" ++ o.flags)
    return (err.isNone, err)

def closeAgentLog : CaptureProg Unit := do
  let err : Option String ← askCapture .stopWritingToFile
  match err with
  | some e => logInfo s!"Failed to stop writing to file error={e}"
  | none => return ()

def logCaptureConfigs (o : CaptureSettings) (pid : Int) (appName dockerID : String) :
    CaptureProg Unit := do
  logInfo s!"PID is {pid}"
  logInfo s!"YC_SERVER is {o.server}"
  logInfo s!"APP_NAME is {appName}"
  if dockerID ≠ "" then logInfo s!"DOCKER_ID is {dockerID}" else pure ()
  logInfo s!"PROBLEMATIC_PID is: {pid}"
  logInfo "SCRIPT_SPAN = 120"
  logInfo "JAVACORE_INTERVAL = 30"
  logInfo "TOP_INTERVAL = 60"
  logInfo "TOP_DASH_H_INTERVAL = 5"
  logInfo "VMSTAT_INTERVAL = 5"

/-- The artifacts of the Diagnostic Report page. -/
def nodeDiagnostics : List String :=
  ["EVENT LOOP LAG", "UNHANDLED REJECTIONS", "MODULE INVENTORY", "HANDLE GROWTH"]

def nodeExtraCaptures : List String := "PROCESS OVERVIEW" :: nodeDiagnostics

/-- The captures of a runtime; the path of the GC log may change. -/
def startRuntime (endpoint runtime gcPath : String) (pid : Int) : CaptureProg String := do
  if runtime = "dotnet" then
    logInfo s!"Executing .NET runtime captures for PID {pid}..."
    askCapture (.goCapture endpoint "gc" [])
    askCapture (.goCapture endpoint "hdsubLog" [])
    askCapture (.goCapture endpoint "threadDump" [])
    return gcPath
  else if runtime = "nodejs" then
    logInfo s!"Executing Node.js runtime captures for PID {pid}..."
    let stdoutPath : Option String ← askCapture (.nodeGCStdoutPath pid)
    askCapture (.goCapture endpoint "gc" [])
    askCapture (.goCapture endpoint "node PROCESS OVERVIEW" [])
    askCapture (.goCapture endpoint "hdsubLog" [])
    askCapture (.goCapture endpoint "node CPU profile" [])
    nodeDiagnostics.forM fun label => askCapture (.goCapture endpoint s!"node {label}" [])
    return stdoutPath.getD gcPath
  else
    askCapture (.goCapture endpoint "gc" [gcPath])
    askCapture (.goCapture endpoint "threadDump" [])
    askCapture (.goCapture endpoint "hdsubLog" [])
    return gcPath

/-- The captures of the system, made for a pid only. -/
def startSystem (endpoint : String) : CaptureProg Unit := do
  askCapture (.goCapture endpoint "netStat" [])
  logInfo "Starting collection of top data..."
  askCapture (.goCapture endpoint "top" [])
  logInfo "Collection of top data started."
  logInfo "Starting collection of vmstat data..."
  askCapture (.goCapture endpoint "vmstat" [])
  logInfo "Collection of vmstat data started."
  logInfo "Collecting ps snapshot..."
  askCapture (.goCapture endpoint "ps" [])
  logInfo "Collected ps snapshot."
  logInfo "Collecting other data.  This may take a few moments..."
  askCapture (.goCapture endpoint "dmesg" [])
  askCapture (.goCapture endpoint "disk" [])
  logInfo "Collected other data."

def cutSuffix (s suffix : String) : Option String :=
  if suffix.toList.isSuffixOf s.toList then
    some (String.ofList (s.toList.take (s.toList.length - suffix.toList.length)))
  else none

def beforeDollar (path : String) : String :=
  match path.toList.reverse.dropWhile (· ≠ '$') with
  | [] => path
  | _ :: before => String.ofList before.reverse

/-- The configured application logs to capture, if any are. -/
def chooseAppLogs (o : CaptureSettings) (appName : String) :
    CaptureProg (Option (List String)) := do
  if o.appLogs ≠ [] ∧ o.appLogLineCount ≠ 0 then
    if o.appLogs.any fun path => path.toList.contains '$' then
      if appName = "" then
        askCapture (.log warnLevel ("appLogs contain '$<appName>' pattern but appName is not " ++
          "configured. To resolve this, either:\n1. Add -a <appName> argument matching the name " ++
          "in your appLog path\n2. Remove '$<appName>' from the appLog file path\nFalling back " ++
          "to capture all configured appLogs without appName filtering."))
        return some (o.appLogs.map beforeDollar)
      else
        let matching := o.appLogs.filterMap fun path => cutSuffix path ("$" ++ appName)
        return if matching = [] then none else some matching
    else return some o.appLogs
  else return none

/-- Drops the discovered files that belong to the GC log. -/
def dropGCLogs (globFiles : List String) : List String → CaptureProg (List String)
  | [] => return []
  | f :: rest => do
    askCapture (.log debugLevel s!"OnDemand FullCapture: discovered log file: {f}")
    if globFiles.any fun name => bytesContains (utf8 f) (utf8 name) then
      logInfo s!"App logs Auto discovery: Ignored {f} because it is detected as a GC log"
      dropGCLogs globFiles rest
    else
      let paths ← dropGCLogs globFiles rest
      return f :: paths

def discoverAppLogs (pid : Int) (gcPath : String) : CaptureProg (List String) := do
  let (discovered, err) ← askCapture (.discoverOpenedLogFiles pid)
  match err with
  | some e => logInfo s!"Error on auto discovering app logs: {e}"
  | none => pure ()
  if gcPath = "" then dropGCLogs [] discovered
  else
    let pattern := Capture.getGlobPatternFromGCPath gcPath pid
    let found : Except String (List String) ← askCapture (.filepathGlob pattern)
    match found with
    | .error _ =>
      logInfo s!"App logs Auto discovery: Error on creating Glob pattern {pattern}"
      dropGCLogs [] discovered
    | .ok globFiles => dropGCLogs globFiles discovered

/-- The application logs of both options, or else those found open: whether the
legacy one is captured, and whether the others are. -/
def startAppLogs (o : CaptureSettings) (endpoint appName gcPath : String) (pid : Int) :
    CaptureProg (Bool × Bool) := do
  let legacy := o.appLog ≠ "" ∧ o.appLogLineCount ≠ 0
  if legacy then askCapture (.goCapture endpoint "appLog" [o.appLog]) else pure ()
  let chosen ← chooseAppLogs o appName
  match chosen with
  | some paths =>
    askCapture (.goCapture endpoint "appLogs" paths)
    return (decide legacy, true)
  | none =>
    if legacy then return (true, false)
    else
      let paths ← discoverAppLogs pid gcPath
      askCapture (.goCapture endpoint "appLogs" paths)
      return (false, true)

def readSystem : CaptureProg Unit := do
  report "top" "TOP DATA"
  report "disk" "DISK USAGE DATA"
  report "netStat" "NETSTAT DATA"
  report "ps" "PROCESS STATUS DATA"
  report "vmstat" "VMstat DATA"
  report "dmesg" "DMesg DATA"

def readAppLogs (legacy others : Bool) : CaptureProg Unit := do
  if legacy then
    let _ ← readResult "appLog" fun ok msg =>
      s!"APPLOG DATA\nIs transmission completed: {ok}\nResp:\n{msg}" ++ dashes
    pure ()
  else pure ()
  if others then
    let _ ← readResult "appLogs" fun ok msg =>
      s!"APPLOGS DATA\nOk (at least one transmitted): {ok}\nResps:\n{msg}" ++ dashes
    return ()
  else return ()

def readThreadDump (absTDPath : String) : CaptureProg Unit := do
  let _ ← readResult "threadDump" fun ok msg =>
    transmitted s!"THREAD DUMP DATA\n{absTDPath}" ok msg
  return ()

def transmitHeapDump (o : CaptureSettings) (parameters : String) (hd : Bool) :
    CaptureProg Unit := do
  if hd ∧ o.minimalTouch then
    logInfo "MinimalTouch mode: skipping heap dump capture (overriding -hd flag)"
  else pure ()
  let (ok, msg) ← askCapture
    (.heapDump s!"{o.server}/yc-receiver-heap?{parameters}" (hd && !o.minimalTouch))
  logInfo (transmitted "HEAP DUMP DATA" ok msg)

def executeCommands (endpoint : String) : Nat → List (String × String) → CaptureProg Unit
  | _, [] => return ()
  | i, (urlParams, cmd) :: rest => do
    let outcome : Except String (Bool × String) ← askCapture (.customCmd endpoint i urlParams cmd)
    match outcome with
    | .error e => logInfo s!"WARNING: Failed to execute custom command {i}:{cmd}, cause: {e}"
    | .ok (ok, msg) => logInfo (transmitted s!"CUSTOM CMD {i}: {cmd}" ok msg)
    executeCommands endpoint (i + 1) rest

/-- `C.1`, with the message of `RequestFin`. A response that could only be read in
part comes with an error. -/
def finish (o : CaptureSettings) (parameters : String) : CaptureProg String := do
  let finEp := s!"{o.server}/yc-fin?{parameters}"
  let (resp, err) ← askCapture (.requestFin finEp)
  match err with
  | none => logInfo (s!"yc-fin endpoint: {finEp}\nResp: {resp}" ++ dashes)
  | some e => logInfo s!"post yc-fin err {e}"
  let (rUrl, result) ← askCapture (.printResult resp)
  askCapture (.stdLog s!"\n{resp}\n")
  logInfo s!"\n{resp}\n"
  logInfo s!"\n{result}\n"
  return rUrl

def transmitAgentLog (endpoint : String) : CaptureProg Unit := do
  let (msg, ok) ← askCapture (.postAgentLog endpoint)
  closeAgentLog
  logInfo (transmitted "YC-360 SCRIPT LOG DATA" ok msg)

structure Capture where
  pid : Int
  appName : String
  hd : Bool
  tags : String
  timestamp : String

/-- The captures and their results, up to the custom commands: the error of
`filepath.Abs`, and whether the GC log was captured. -/
def captureAndTransmit (o : CaptureSettings) (c : Capture) (endpoint parameters : String) :
    CaptureProg (Option String × Bool) := do
  let (gcPath, tdPath, _) ← askCapture (.updatePaths c.pid o.gcPath o.tdPath o.hdPath)
  let gcPath ←
    if 0 < c.pid ∧ gcPath = "" then do
      let found : Except String String ← askCapture (.getGCLogFile c.pid)
      pure (match found with
        | .ok path => path
        | .error _ => gcPath)
    else pure gcPath
  let dockerID : String ← if 0 < c.pid then askCapture (.getDockerID c.pid) else pure ""
  logCaptureConfigs o c.pid c.appName dockerID
  if o.boomi then
    logInfo s!"CAPTURING BOOMI DETAILS..{o.boomiUrl}->"
    askCapture (.captureBoomiDetails endpoint c.pid)
  else pure ()
  let runtime : String ← askCapture (.getAppRuntime c.pid)
  let gcPath ← startRuntime endpoint runtime gcPath c.pid
  if 0 < c.pid then startSystem endpoint else pure ()
  askCapture (.goCapture endpoint "ping" [])
  askCapture (.goCapture endpoint "kernel" [])
  let (legacy, others) ← startAppLogs o endpoint c.appName gcPath c.pid
  let extended := o.edScript ≠ "" ∧ o.edDataFolder ≠ ""
  if extended then askCapture (.goCapture endpoint "extended data" []) else pure ()
  if 0 < c.pid then readSystem else pure ()
  let gcOk ← readResult "gc" (transmitted "GC LOG DATA")
  report "ping" "PING DATA"
  readAppLogs legacy others
  report "hdsubLog" "HDSUB DATA"
  report "kernel" "KERNEL PARAMS DATA"
  let resolved : Except String String ← askCapture (.abs tdPath)
  let (absTDPath, err) := match resolved with
    | .ok path => (path, none)
    | .error e => (s!"path {tdPath}: {e}", some e)
  if runtime ≠ "nodejs" then readThreadDump absTDPath else pure ()
  if runtime = "nodejs" then
    report "node CPU profile" "NODE CPU PROFILE DATA"
    nodeExtraCaptures.forM fun label => report s!"node {label}" s!"NODE {label} DATA"
  else pure ()
  if runtime ≠ "dotnet" ∧ runtime ≠ "nodejs" then transmitHeapDump o parameters c.hd else pure ()
  if extended then report "extended data" "EXTENDED DATA" else pure ()
  logInfo "Executing custom commands"
  executeCommands endpoint 0 o.commands
  logInfo "Executed custom commands"
  return (err, gcOk)

/-- From `A.3` on, with the calls deferred there. The error of opening the log
file is overwritten by that of `filepath.Abs`. -/
def captureInDir (o : CaptureSettings) (c : Capture) (endpoint parameters : String) :
    CaptureProg (String × Option String) := do
  let (agentLog, _) ← openAgentLog o
  let (msg, ok, ignored) ← askCapture (.writeMetaInfo c.pid c.appName endpoint c.tags)
  logInfo (s!"META INFO DATA\nIs transmission completed: {ok}\nResp: {msg}\n" ++
    s!"Ignored errors: {ignored}" ++ dashes)
  let found : Bool ← if 0 < c.pid then askCapture (.isProcessExists c.pid) else pure true
  let (err, gcOk) ← captureAndTransmit o c endpoint parameters
  let rUrl ←
    if o.onlyCapture then pure ""
    else do
      let rUrl ← finish o parameters
      if agentLog then transmitAgentLog endpoint else pure ()
      pure rUrl
  if gcOk then pure () else logInfo "WARNING: no -gcPath is passed and failed to capture gc log"
  if found then pure ()
  else
    logInfo s!"WARNING: Process {c.pid} doesn't exist."
    logInfo "WARNING: You have entered non-existent processId. Please enter valid process id"
  if agentLog && o.onlyCapture then closeAgentLog else pure ()
  return (rUrl, err)

/-- The deferred return to the directory the capture started in. -/
def leave (o : CaptureSettings) (captureDir dir : String) : CaptureProg Unit := do
  let left : Option String ← askCapture (.chdir dir)
  match left with
  | some e => logInfo s!"WARNING: Can not chdir: {e}"
  | none =>
    if o.onlyCapture then
      let packed : Except String String ← askCapture (.compressFolder captureDir)
      match packed with
      | .error e => logInfo s!"WARNING: Can not zip folder: {e}"
      | .ok name =>
        askCapture (.stdLog s!"All dumps can be found in {name}")
        if o.log2File then logInfo s!"All dumps can be found in {name}" else return ()
    else return ()

def captureFrom (o : CaptureSettings) (c : Capture) (captureDir endpoint parameters : String) :
    CaptureProg (String × Option String) := do
  let start : Except String String ← askCapture .getwd
  match start with
  | .error _ => return ("", none)
  | .ok dir =>
    let entered : Option String ← if o.m3 then pure none else askCapture (.chdir captureDir)
    match entered with
    | some _ => return ("", none)
    | none =>
      let outcome ← captureInDir o c endpoint parameters
      leave o captureDir dir
      return outcome

def fullCapture (o : CaptureSettings) (c : Capture) : CaptureProg String := do
  let (timestamp, timezone) ← askCapture .now
  let tsParam := if c.timestamp = "" then timestamp else c.timestamp
  let ip : String ← askCapture .getOutboundIP
  let parameters := s!"de={ip}&ts={tsParam}&timezoneId={timezone}"
  let endpoint := s!"{o.server}/ycrash-receiver?{parameters}"
  let captureDir :=
    if o.storagePath = "" then s!"yc-{timestamp}" else joinPath o.storagePath s!"yc-{timestamp}"
  let made : Option String ← if o.m3 then pure none else askCapture (.mkdir captureDir)
  match made with
  | some e => do
    askCapture (.log errorLevel s!"unexpected error error={e}")
    return ""
  | none =>
    let (rUrl, err) ← captureFrom o c captureDir endpoint parameters
    if o.deferDelete then
      let removed : Option String ← askCapture (.removeAll captureDir)
      match removed with
      | some e => logInfo s!"WARNING: Can not remove the current directory: {e}"
      | none => pure ()
    else pure ()
    match err with
    | some e => askCapture (.log errorLevel s!"unexpected error error={e}")
    | none => pure ()
    return rUrl

/-- The loop of `ProcessPids`, with the timestamps for the pids that are left. -/
def processEach (o : CaptureSettings) (pid2Name : Int → Option String) (hd : Bool) (tags : String) :
    List String → List Int → CaptureProg (List String)
  | _, [] => return []
  | timestamps, pid :: rest => do
    let name := (pid2Name pid).getD o.appName
    if o.captureCmd ≠ "" then
      let err : Option String ← askCapture (.runCaptureCmd pid o.captureCmd)
      match err with
      | some e => logInfo s!"WARNING: runCaptureCmd failed {e}"
      | none => pure ()
      processEach o pid2Name hd tags timestamps.tail rest
    else
      let url ← fullCapture o ⟨pid, name, hd, tags, timestamps.headD ""⟩
      let rUrls ← processEach o pid2Name hd tags timestamps.tail rest
      return if url = "" then rUrls else url :: rUrls

def processPids (o : CaptureSettings) (pids : List Int) (pid2Name : Int → Option String) (hd : Bool)
    (tags : String) (timestamps : List String) : CaptureProg (List String) :=
  if pids = [] then do
    logInfo "Empty pids, no action needed."
    return []
  else processEach o pid2Name hd tags timestamps pids.eraseDups

def quietCapture : (op : CaptureOp) → op.Reply
  | .now => ("2025-01-01T00-00-00", "VVRD")
  | .getOutboundIP => "127.0.0.1"
  | .mkdir _ | .chdir _ | .removeAll _ => (none : Option String)
  | .startWritingToFile | .stopWritingToFile | .runCaptureCmd _ _ => (none : Option String)
  | .getwd => Except.ok "/opt/yc"
  | .compressFolder dir => Except.ok dir
  | .writeMetaInfo _ _ _ _ => ("", true, "")
  | .isProcessExists _ => true
  | .updatePaths _ gcPath tdPath hdPath => (gcPath, tdPath, hdPath)
  | .getGCLogFile _ => Except.ok ""
  | .requestFin _ => ("", none)
  | .getDockerID _ | .getAppRuntime _ => ""
  | .captureBoomiDetails _ _ | .goCapture _ _ _ | .log _ _ | .stdLog _ => ()
  | .nodeGCStdoutPath _ => none
  | .result _ | .heapDump _ _ => (true, "")
  | .discoverOpenedLogFiles _ => ([], none)
  | .filepathGlob _ => Except.ok []
  | .abs path => Except.ok path
  | .customCmd _ _ _ _ => Except.ok (true, "")
  | .printResult _ => ("", "")
  | .postAgentLog _ => ("", true)

end YcAgent.Ondemand.CaptureLog
