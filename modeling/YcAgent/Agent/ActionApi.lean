import YcAgent.Go.Map
import YcAgent.Go.Strings
import YcAgent.Lib.Program

/-!
The action API of the agent: a request names processes in several ways, the
handler resolves them to pids and captures each of them, and the response
carries the URLs of the reports. The results pass through a Go map keyed by
pid, whose iteration order the language leaves open.
-/

namespace YcAgent.Agent

open Go Lib.Program

/-- An element of the list of parsed actions: a pid, or the text of an action
that is no longer supported. -/
inductive Target where
  | pid (pid : Int)
  | unsupported
deriving DecidableEq

def unsupportedOperation : Bytes := ascii "Unsupported Operation"

structure ActionRequest where
  key : Bytes
  actions : List Bytes
  waitFor : Bool
  hd : Option Bool
  tags : Bytes

structure ActionResponse where
  code : Int := 0
  msg : Bytes := []
  dashboardReportURLs : List Bytes := []
  output : List (List Bytes) := []
deriving DecidableEq

structure ActionConfig where
  apiKey : Bytes
  heapDump : Bool

/-- What the API asks its surroundings for. A `range` over the map of results is
an operation because its order is not determined. -/
inductive ActionOp where
  | getTopCpu
  | getTopMem
  | getProcessIds (token : Bytes)
  | attend
  | isProcessExists (pid : Int)
  | processPids (pid : Int) (pid2Name : GoMap Int Bytes) (hd : Bool) (tags : Bytes)
  | rangeResults (keys : List Target)
  | hdAddress
  | forward (url : Bytes)
  | encode (resp : ActionResponse)
  | log (text : Bytes)

namespace ActionOp

/-- `GetProcessIds` answers with its entries in the order of the `range` over
them, `ProcessPids` with its URLs and its error; `hdAddress` is where `Hd` points,
and a forwarded request ends with a response and the error of closing the body. -/
def Reply : ActionOp → Type
  | getTopCpu => Except Bytes Int
  | getTopMem => Except Bytes Int
  | getProcessIds _ => Except Bytes (List (Int × Bytes))
  | attend => Unit
  | isProcessExists _ => Bool
  | processPids _ _ _ _ => List Bytes × Option Bytes
  | rangeResults _ => List Target
  | hdAddress => Bytes
  | forward _ => ActionResponse × Option Bytes
  | encode _ => Option Bytes
  | log _ => Unit

end ActionOp

abbrev ActionProg := Prog ActionOp ActionOp.Reply

def askAction (op : ActionOp) : ActionProg op.Reply := .perform op

structure Parsed where
  result : List Target := []
  pid2Name : GoMap Int Bytes := ∅
  hasCmd : Bool := false
  err : Option Bytes := none

namespace Parsed

def add (parsed : Parsed) (pid : Int) : Parsed :=
  if 0 < pid then { parsed with result := parsed.result ++ [.pid pid] } else parsed

def addNamed (parsed : Parsed) (entry : Int × Bytes) : Parsed :=
  if 0 < entry.1 then
    { parsed with
      result := parsed.result ++ [.pid entry.1]
      pid2Name := parsed.pid2Name.insert entry.1 entry.2 }
  else parsed

def fail (parsed : Parsed) (err : Bytes) : Parsed := { parsed with err := some err }

end Parsed

/-- The part of `parseActions` for `capture id`. -/
def parseCapture (id : Bytes) (parsed : Parsed) : ActionProg Parsed := do
  if id = ascii "PROCESS_HIGH_CPU" then
    match ← askAction .getTopCpu with
    | .error err => return parsed.fail err
    | .ok pid => return parsed.add pid
  else if id = ascii "PROCESS_HIGH_MEMORY" then
    match ← askAction .getTopMem with
    | .error err => return parsed.fail err
    | .ok pid => return parsed.add pid
  else if id = ascii "PROCESS_UNKNOWN" then
    match ← askAction .getTopCpu with
    | .error err => return parsed.fail err
    | .ok top =>
      match ← askAction .getTopMem with
      | .error err => return (parsed.add top).fail err
      | .ok pid => return (parsed.add top).add pid
  else
    match atoi (text id) with
    | some pid => return parsed.add pid
    | none =>
      match ← askAction (.getProcessIds id) with
      | .error _ => return parsed
      | .ok entries => return entries.foldl Parsed.addNamed parsed

def parseAction (s : Bytes) (parsed : Parsed) : ActionProg Parsed :=
  if (ascii "capture ").isPrefixOf s then
    match s.splitOn 32 with
    | [_, second] => parseCapture (trimSpace second) parsed
    | _ => return parsed
  else if s = ascii "attendance" then do
    askAction .attend
    return parsed
  else
    return { parsed with hasCmd := true, result := parsed.result ++ [.unsupported] }

/-- The first error ends the loop. -/
def parseActions : List Bytes → Parsed → ActionProg Parsed
  | [], parsed => return parsed
  | s :: rest, parsed => do
    let parsed ← parseAction s parsed
    if parsed.err.isSome then return parsed else parseActions rest parsed

structure Refusal where
  msg : Bytes
  output : List (List Bytes)

def anyProcessExists : List Int → ActionProg Bool
  | [] => return false
  | pid :: rest => do
    let found : Bool ← askAction (.isProcessExists pid)
    if found then return true else anyProcessExists rest

def pidsOf (result : List Target) : List Int :=
  result.filterMap fun
    | .pid pid => some pid
    | .unsupported => none

def validateActionAPIParseResult (result : List Target) : ActionProg (Option Refusal) := do
  if result.all (· = .unsupported) then
    return some ⟨[], result.map fun _ => [unsupportedOperation]⟩
  else
    if ← anyProcessExists (pidsOf result) then return none
    else return some ⟨ascii "You have entered non-existent process ids.", []⟩

structure ProcessPidsResult where
  rUrls : List Bytes
  err : Option Bytes
  output : List Bytes
deriving DecidableEq

def processTarget (pid2Name : GoMap Int Bytes) (hd : Bool) (tags : Bytes) :
    Target → ActionProg ProcessPidsResult
  | .pid pid => do
    let (rUrls, err) ← askAction (.processPids pid pid2Name hd tags)
    match err with
    | none => return ⟨rUrls, none, itoa pid :: rUrls⟩
    | some err => return ⟨rUrls, some err, [itoa pid, err]⟩
  | .unsupported => return ⟨[], none, [unsupportedOperation]⟩

def recordTarget (pid2Name : GoMap Int Bytes) (hd : Bool) (tags : Bytes)
    (results : GoMap Target ProcessPidsResult) (target : Target) :
    ActionProg (GoMap Target ProcessPidsResult) := do
  let r ← processTarget pid2Name hd tags target
  return results.insert target r

def processTargets (pid2Name : GoMap Int Bytes) (hd : Bool) (tags : Bytes)
    (result : List Target) : ActionProg (GoMap Target ProcessPidsResult) :=
  result.foldlM (recordTarget pid2Name hd tags) ∅

def ActionResponse.only (resp : ActionResponse) (r : ProcessPidsResult) : ActionResponse :=
  match r.err with
  | some err => { resp with code := -1, msg := err }
  | none => { resp with dashboardReportURLs := r.rUrls }

def ActionResponse.addRow (resp : ActionResponse) (r : ProcessPidsResult) : ActionResponse :=
  { resp with
    dashboardReportURLs := resp.dashboardReportURLs ++ r.rUrls
    output := resp.output ++ [r.output] }

def populate (results : GoMap Target ProcessPidsResult) : ActionProg ActionResponse := do
  if results.keys.length = 1 then
    let order ← askAction (.rangeResults results.keys)
    return (order.filterMap results.lookup).foldl ActionResponse.only {}
  else if 1 < results.keys.length then
    let order ← askAction (.rangeResults results.keys)
    return (order.filterMap results.lookup).foldl ActionResponse.addRow {}
  else return {}

def formatSlice (items : List Bytes) : Bytes :=
  ascii "[" ++ (ascii " ").intercalate items ++ ascii "]"

def formatResponse (resp : ActionResponse) : Bytes :=
  ascii "&\x7b" ++ itoa resp.code ++ ascii " " ++ resp.msg ++ ascii " " ++
    formatSlice resp.dashboardReportURLs ++ ascii " " ++
    formatSlice (resp.output.map formatSlice) ++ ascii "\x7d"

/-- The goroutine that captures and fills the response in. -/
def captureJob (pid2Name : GoMap Int Bytes) (hd : Bool) (tags : Bytes) (result : List Target) :
    ActionProg ActionResponse := do
  let results ← processTargets pid2Name hd tags result
  let resp ← populate results
  askAction (.log (ascii "action api completed: " ++ formatResponse resp))
  return resp

/-- The response is ready, or the goroutine that fills it in is left running. -/
inductive Served where
  | ready (resp : ActionResponse)
  | pending (job : ActionProg ActionResponse)

def needHeapDump (cfg : ActionConfig) (req : ActionRequest) : ActionProg Bool :=
  match req.hd with
  | some hd => return hd
  | none => do
    askAction (.log (ascii "no hd passed in the request, using global config"))
    return cfg.heapDump

/-- What follows `parseActions` in the handler. -/
def serveParsed (cfg : ActionConfig) (req : ActionRequest) (parsed : Parsed) :
    ActionProg Served := do
  match parsed.err with
  | some err => return .ready { code := -1, msg := err }
  | none =>
    match ← validateActionAPIParseResult parsed.result with
    | some refusal => return .ready { code := -1, msg := refusal.msg, output := refusal.output }
    | none =>
      let hd ← needHeapDump cfg req
      let job := captureJob parsed.pid2Name hd req.tags parsed.result
      if req.waitFor || parsed.hasCmd then
        let resp ← job
        return .ready resp
      else return .pending job

def handleActionAPI (cfg : ActionConfig) (req : ActionRequest) : ActionProg Served := do
  if cfg.apiKey ≠ req.key then
    return .ready { code := -1, msg := ascii "invalid key passed" }
  else
    let parsed ← parseActions req.actions {}
    serveParsed cfg req parsed

/-- The parts of `fmt` that print a request or a response in Go syntax. A quoted
string can be read back. -/
structure Fmt where
  quote : Bytes → Bytes
  quote_injective : Function.Injective quote
  slice : List Bytes → Bytes
  response : ActionResponse → Bytes

/-- `%#v` of a request whose `Hd` prints as `hd`. -/
def Fmt.request (fmt : Fmt) (hd : Bytes) (req : ActionRequest) : Bytes :=
  ascii "&api.ActionRequest\x7bKey:" ++ fmt.quote req.key ++
    (ascii ", Actions:" ++ fmt.slice req.actions ++ ascii ", WaitFor:" ++
      (if req.waitFor then ascii "true" else ascii "false") ++ ascii ", Hd:(*bool)(" ++ hd ++
      ascii "), Tags:" ++ fmt.quote req.tags ++ ascii "\x7d")

def sendResponse (fmt : Fmt) (resp : ActionResponse) : ActionProg Unit := do
  let failed : Option Bytes ← askAction (.encode resp)
  match failed with
  | none => return ()
  | some err =>
    askAction (.log
      (ascii "failed to encode response(" ++ fmt.response resp ++ ascii "): " ++ err))

/-- A goroutine that nobody waits for goes on after the response. -/
def answer (fmt : Fmt) : Served → ActionProg Unit
  | .ready resp => sendResponse fmt resp
  | .pending job => do
    sendResponse fmt {}
    let _ ← job
    return ()

/-- `%#v` of a pointer is its address. -/
def hdText (req : ActionRequest) : ActionProg Bytes :=
  match req.hd with
  | some _ => askAction .hdAddress
  | none => return ascii "nil"

/-- A request as it comes in: to be forwarded, or with a body that may decode. -/
inductive Incoming where
  | forward (url : Bytes)
  | body (decoded : Except Bytes ActionRequest)

def action (fmt : Fmt) (cfg : ActionConfig) : Incoming → ActionProg Unit
  | .forward url => do
    let (resp, closeErr) ← askAction (.forward url)
    match closeErr with
    | some err => askAction (.log (ascii "failed to close response body: " ++ err))
    | none => pure ()
    sendResponse fmt resp
  | .body (.error err) => sendResponse fmt { code := -1, msg := err }
  | .body (.ok req) => do
    let hd ← hdText req
    askAction (.log (ascii "action request: " ++ fmt.request hd req))
    let served ← handleActionAPI cfg req
    answer fmt served

end YcAgent.Agent
