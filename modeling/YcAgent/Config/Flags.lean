import YcAgent.Go.Stream

/-!
The command-line flags and the configuration file: `ParseFlags` with
`registerFlags` and `copyFlagsValue`. The source walks the fields of `Options`
by reflection, and every step treats each field by itself; a cell is a field
with its value in `GlobalConfig` and its entry in the map of flag variables.
The `flag` and `yaml` packages appear through what they read: the settings of
an argument vector, the values of their texts, and the values of a document.
-/

namespace YcAgent.Config

inductive Kind where
  | string
  | bool
  | int
  | duration
  | strings
  | commands
  | healthChecks
  deriving DecidableEq, Repr

/-- A field's value. A list is `none` where the Go slice is nil, which
`reflect.DeepEqual` tells from an empty one. -/
inductive Value where
  | str (s : String)
  | bool (b : Bool)
  | int (n : Int)
  | duration (ns : Int)
  | strings (items : Option (List String))
  | commands (items : Option (List (String × String)))
  | healthChecks (checks : List (String × String × String × Int))
  deriving DecidableEq, Repr

/-- A field of `Options`: its name, its `yaml` and `arg` tags and its type. -/
structure Field where
  name : String
  yaml : Option String
  arg : Option String
  kind : Kind
  deriving DecidableEq, Repr

def tagged (name yaml : String) (kind : Kind) : Field := ⟨name, some yaml, none, kind⟩

def optionFields : List Field := [
  tagged "Pid" "p" .string,
  tagged "ApiKey" "k" .string,
  tagged "Server" "s" .string,
  tagged "AppName" "a" .string,
  tagged "HeapDump" "hd" .bool,
  tagged "HeapDumpPath" "hdPath" .string,
  tagged "ThreadDumpPath" "tdPath" .string,
  tagged "TDCaptureDuration" "tdCaptureDuration" .duration,
  tagged "GCPath" "gcPath" .string,
  tagged "JavaHomePath" "j" .string,
  tagged "DeferDelete" "d" .bool,
  ⟨"ShowVersion", some "-", some "version", .bool⟩,
  ⟨"ConfigPath", some "-", some "c", .string⟩,
  tagged "Commands" "cmds" .commands,
  tagged "VerifySSL" "verifySSL" .bool,
  tagged "CACertPath" "caCertPath" .string,
  ⟨"M3", none, some "m3", .bool⟩,
  tagged "M3Frequency" "m3Frequency" .duration,
  tagged "ProcessTokens" "processTokens" .strings,
  tagged "ExcludeProcessTokens" "excludeTokens" .strings,
  tagged "AccessLog" "accessLog" .string,
  tagged "CaptureCmd" "captureCmd" .string,
  tagged "Address" "address" .string,
  tagged "Port" "port" .int,
  tagged "GCCaptureCmd" "gcCaptureCmd" .string,
  tagged "TDCaptureCmd" "tdCaptureCmd" .string,
  tagged "HDCaptureCmd" "hdCaptureCmd" .string,
  tagged "OnlyCapture" "onlyCapture" .bool,
  tagged "MinimalTouch" "minimalTouch" .bool,
  tagged "PingHost" "pingHost" .string,
  tagged "Tags" "tags" .string,
  tagged "GCCaptureMode" "gcCaptureMode" .bool,
  tagged "TDCaptureMode" "tdCaptureMode" .bool,
  tagged "HDCaptureMode" "hdCaptureMode" .bool,
  tagged "JCmdCaptureMode" "jCmdCaptureMode" .string,
  tagged "VMStatMode" "vmstatMode" .bool,
  tagged "TopMode" "topMode" .bool,
  tagged "LogFilePath" "logFilePath" .string,
  tagged "LogFileMaxSize" "logFileMaxSize" .int,
  tagged "LogFileMaxCount" "logFileMaxCount" .int,
  tagged "LogLevel" "logLevel" .string,
  tagged "AppLog" "appLog" .string,
  tagged "AppLogs" "appLogs" .strings,
  tagged "AppLogLineCount" "appLogLineCount" .int,
  tagged "StoragePath" "storagePath" .string,
  tagged "Kubernetes" "kubernetes" .bool,
  tagged "HealthChecks" "healthChecks" .healthChecks,
  tagged "BoomiUser" "boomiUser" .string,
  tagged "BoomiPassword" "boomiPassword" .string,
  tagged "Boomi" "boomi" .bool,
  tagged "BoomiUrl" "boomiUrl" .string,
  tagged "BoomiAcctId" "boomiAcctId" .string,
  tagged "Period" "period" .int,
  tagged "AtomId" "atomId" .string,
  tagged "EdScript" "edScript" .string,
  tagged "EdDataFolder" "edDataFolder" .string,
  tagged "CmdTimeout" "cmdTimeout" .duration,
  tagged "HttpClientTimeout" "httpClientTimeout" .duration,
  tagged "AccessLogs" "accessLogs" .strings,
  tagged "AccessLogFormats" "accessLogFormats" .strings,
  tagged "AccessLogSources" "accessLogSources" .strings,
  tagged "AppRuntime" "appRuntime" .string,
  tagged "DotnetToolPath" "dotnetToolPath" .string,
  tagged "GcDuration" "gcDuration" .int,
  tagged "NodejsCaptureMode" "nodejsCaptureMode" .string,
  tagged "NodejsReportSignal" "nodejsReportSignal" .string,
  tagged "NodejsHeapdumpSignal" "nodejsHeapdumpSignal" .string,
  tagged "NodejsRuntimeDir" "nodejsRuntimeDir" .string,
  tagged "NodejsHookPath" "nodejsHookPath" .string,
  tagged "NodejsGCCaptureDuration" "nodejsGCCaptureDuration" .duration,
  tagged "NodejsGCLogPath" "nodejsGCLogPath" .string,
  tagged "NodejsCPUProfileDuration" "nodejsCPUProfileDuration" .duration,
  tagged "NodejsDiagnosticWindow" "nodejsDiagnosticWindow" .duration]

def Kind.zero : Kind → Value
  | .string => .str ""
  | .bool => .bool false
  | .int => .int 0
  | .duration => .duration 0
  | .strings => .strings none
  | .commands => .commands none
  | .healthChecks => .healthChecks []

def second : Int := 1000000000
def minute : Int := 60 * second

def defaultValue (field : Field) : Value :=
  match field.name with
  | "VerifySSL" => .bool true
  | "M3Frequency" => .duration (3 * minute)
  | "Address" => .str "localhost"
  | "Port" => .int (-1)
  | "LogFileMaxCount" => .int 7
  | "LogFileMaxSize" => .int (512 * 1024 * 1024)
  | "LogLevel" => .str "info"
  | "PingHost" => .str "google.com"
  | "DeferDelete" => .bool true
  | "AppLogLineCount" => .int 10000
  | "CmdTimeout" => .duration (60 * second)
  | "HttpClientTimeout" => .duration (60 * second)
  | "NodejsCaptureMode" => .str "hook"
  | "NodejsReportSignal" => .str "SIGUSR2"
  | "NodejsHeapdumpSignal" => .str "SIGUSR2"
  | "NodejsGCCaptureDuration" => .duration (30 * second)
  | "NodejsCPUProfileDuration" => .duration (30 * second)
  | "NodejsDiagnosticWindow" => .duration (30 * second)
  | _ => field.kind.zero

/-- The name a field is registered under as a flag. -/
def Field.flagName (field : Field) : Option String :=
  match field.yaml with
  | none => field.arg
  | some name => if name = "-" then field.arg else some name

/-- The key of a field below `options` in the configuration file. -/
def Field.yamlKey (field : Field) : Option String :=
  match field.yaml with
  | none => some field.name.toLower
  | some key => if key = "-" then none else some key

/-- What the map of flag variables holds for a field: the text of `-verifySSL`,
a variable of its own, the items given so far, the field itself, or the two
lists of `-urlParams` and `-cmd`. -/
inductive FlagVar where
  | text (s : String)
  | value (v : Value)
  | list (items : Option (List String))
  | through
  | pair (urlParams cmds : List String)
  deriving DecidableEq, Repr

structure Cell where
  field : Field
  value : Value
  flag : Option FlagVar
  deriving DecidableEq, Repr

def defaultConfig : List Cell :=
  optionFields.map fun field => ⟨field, defaultValue field, none⟩

def formatBool : Value → String
  | .bool true => "true"
  | _ => "false"

/-- One round of the loop of `registerFlags`. -/
def registerFlag (cell : Cell) : Cell :=
  match cell.field.flagName with
  | none => { cell with flag := none }
  | some _ =>
    if cell.field.name = "VerifySSL" then
      { cell with flag := some (.text (formatBool cell.value)) }
    else
      match cell.field.kind with
      | .strings => { cell with flag := some (.list none) }
      | .duration => { cell with flag := some .through }
      | .healthChecks => { cell with flag := none }
      | .commands => { cell with flag := some (.pair [] []) }
      | .string | .bool | .int => { cell with flag := some (.value cell.value) }

structure Setting where
  flag : String
  text : String
  deriving DecidableEq, Repr

/-- The `flag` package: the flags of an argument vector in order, and the
values of their texts. It ends the process where it has none. -/
structure FlagPackage where
  settings : List String → Option (List Setting)
  parse : Kind → String → Option Value

inductive ConfigError where
  | exit
  | panicCommands
  | verifySSL (text : String)
  | openFailed (path cause : String)
  | decodeFailed (path cause : String)
  deriving DecidableEq, Repr

def setFlag (flags : FlagPackage) (cell : Cell) (setting : Setting) : Except ConfigError Cell :=
  match cell.flag with
  | none => .ok cell
  | some (.pair urlParams cmds) =>
    if setting.flag = "urlParams" then
      .ok { cell with flag := some (.pair (urlParams ++ [setting.text]) cmds) }
    else if setting.flag = "cmd" then
      .ok { cell with flag := some (.pair urlParams (cmds ++ [setting.text])) }
    else .ok cell
  | some var =>
    if cell.field.flagName = some setting.flag then
      match var with
      | .text _ => .ok { cell with flag := some (.text setting.text) }
      | .list items =>
        .ok { cell with flag := some (.list (some (items.getD [] ++ [setting.text]))) }
      | _ =>
        match flags.parse cell.field.kind setting.text with
        | none => .error .exit
        | some v =>
          if var = .through then .ok { cell with value := v }
          else .ok { cell with flag := some (.value v) }
    else .ok cell

def parseLowerBool (s : String) : Option Bool :=
  let lower := s.toLower
  if lower = "1" ∨ lower = "t" ∨ lower = "true" then some true
  else if lower = "0" ∨ lower = "f" ∨ lower = "false" then some false
  else none

def FlagVar.read (cell : Cell) : FlagVar → Except ConfigError Value
  | .text s =>
    match parseLowerBool s with
    | none => .error (.verifySSL s)
    | some b => .ok (.bool b)
  | .value v => .ok v
  | .list items => .ok (.strings items)
  | .through => .ok cell.value
  | .pair urlParams cmds =>
    if urlParams.length ≠ cmds.length then .error .panicCommands
    else .ok (.commands (some (urlParams.zip cmds)))

/-- One round of the loop of `copyFlagsValue`. The commands are set without a
comparison and stay in the map. -/
def copyFlagValue (cell : Cell) : Except ConfigError Cell :=
  match cell.flag with
  | none => .ok cell
  | some var =>
    match var.read cell with
    | .error err => .error err
    | .ok x =>
      match var with
      | .pair _ _ => .ok { cell with value := x }
      | _ =>
        if x = cell.value then .ok { cell with flag := none }
        else .ok { cell with value := x }

abbrev Document := String → Option Value

/-- The decoder sets the fields the document mentions. -/
def decode (doc : Document) (cell : Cell) : Cell :=
  match cell.field.yamlKey.bind doc with
  | none => cell
  | some v => { cell with value := v }

/-- The deferred clean-up of `ParseFlags`: the server URL loses a final
slash. -/
def trimServer (s : String) : String :=
  if 2 < s.utf8ByteSize ∧ s.toList.getLast? = some '/' then String.ofList s.toList.dropLast else s

def Field.trimmed (field : Field) (v : Value) : Value :=
  match v with
  | .str s => if field.name = "Server" then .str (trimServer s) else v
  | _ => v

def Cell.trim (cell : Cell) : Cell := { cell with value := cell.field.trimmed cell.value }

def configPath (cells : List Cell) : String :=
  match cells.find? (fun cell => cell.field.name = "ConfigPath") with
  | some ⟨_, .str path, _⟩ => path
  | _ => ""

def known (cells : List Cell) (setting : Setting) : Bool :=
  cells.any fun cell =>
    match cell.flag with
    | none => false
    | some (.pair _ _) => setting.flag = "urlParams" || setting.flag = "cmd"
    | some _ => cell.field.flagName = some setting.flag

/-- `ParseFlags(args)` on the options `cells`, where `readConfig` opens and
decodes a configuration file. -/
def parseFlags (flags : FlagPackage) (readConfig : String → Except ConfigError Document)
    (args : List String) (cells : List Cell) : Except ConfigError (List Cell) :=
  if args.length < 2 then .ok cells
  else
    match flags.settings args.tail with
    | none => .error .exit
    | some settings => do
      let cells := cells.map registerFlag
      if settings.all (known cells) then
        let cells ← cells.mapM fun cell => settings.foldlM (setFlag flags) cell
        let cells ← cells.mapM copyFlagValue
        if configPath cells = "" then return cells.map Cell.trim
        else
          let doc ← readConfig (configPath cells)
          let cells ← (cells.map (decode doc)).mapM copyFlagValue
          return cells.map Cell.trim
      else .error .exit

end YcAgent.Config
