import YcAgent.Agent.ActionApi
import YcAgent.Lib.Delimited
import YcAgent.Ondemand.CaptureLog

/-!
What the agent writes to its log in two runs that differ only in the API key and
the Boomi password. The listing of the effective flags and the messages of
`FullCapture` do not depend on them. Two messages do: the command line, which is
logged as it was given, and an action request, which is logged with its key.
-/

namespace YcAgent.Agent

open Go Config Lib.Program Ondemand.CaptureLog

inductive AgentOp where
  | api (op : ActionOp)
  | capture (op : CaptureOp)

def AgentOp.Reply : AgentOp → Type
  | api op => op.Reply
  | capture op => op.Reply

abbrev AgentProg := Prog AgentOp AgentOp.Reply

def askFromCapture (op : CaptureOp) : AgentProg op.Reply :=
  .perform (AgentOp.capture op)

def ofUTF8 (b : Bytes) : String := (String.fromUTF8? ⟨b.toArray⟩).getD ""

/-- The merge of the configured tags with others, which `ProcessPidsWithMutex` and
`processM3FinResponse` have in the same words. A text is its characters or its
bytes. -/
def mergeConfigured {α : Type} [DecidableEq α] (comma : α) (configured t : List α) : List α :=
  if 0 < configured.length then
    let ts := Lib.Delimited.trim comma configured
    Lib.Delimited.trim comma (ts ++ [comma] ++ t)
  else Lib.Delimited.trim comma t

def configuredTags (configured tags : String) : String :=
  String.ofList (mergeConfigured ',' configured.toList tags.toList)

/-- The error of `ProcessPids` is always nil. -/
def processPidsWithMutex (o : CaptureSettings) (pids : List Int) (pid2Name : GoMap Int Bytes)
    (hd : Bool) (tags : Bytes) : CaptureProg (List Bytes × Option Bytes) := do
  let rUrls ← processPids o pids (fun pid => (pid2Name.lookup pid).map ofUTF8) hd
    (configuredTags o.tags (ofUTF8 tags)) [""]
  return (rUrls.map utf8, none)

/-- `NewServer` sets `ProcessPids` to `ProcessPidsWithMutex`. -/
def serveOp (o : CaptureSettings) : (op : ActionOp) → AgentProg op.Reply
  | .processPids pid pid2Name hd tags =>
    (processPidsWithMutex o [pid] pid2Name hd tags).interpret askFromCapture
  | op => .perform (AgentOp.api op)

def apiKeyOf (values : Field → Value) : Bytes := utf8 (stringOption values "ApiKey")

def actionConfig (values : Field → Value) : ActionConfig where
  apiKey := apiKeyOf values
  heapDump := boolOption values "HeapDump"

def Incoming.withKey (key : Bytes) : Incoming → Incoming
  | .body (.ok req) => .body (.ok { req with key := key })
  | incoming => incoming

def Incoming.Decoded : Incoming → Prop
  | .body (.ok _) => True
  | _ => False

inductive Activity where
  | capture (c : Capture)
  | request (incoming : Incoming)

/-- A request that is not forwarded and whose body can be decoded. Only such a request
is logged, with its key in it. -/
def Activity.Decoded : Activity → Prop
  | .capture _ => False
  | .request incoming => incoming.Decoded

section Session

variable (fmt : Fmt) (formatV : Value → String)

def Activity.program (values : Field → Value) : Activity → AgentProg Unit
  | .capture c => do
    let _ ← (fullCapture (captureSettings values formatV) c).interpret askFromCapture
    return ()
  | .request incoming =>
    (action fmt (actionConfig values) (incoming.withKey (apiKeyOf values))).interpret
      (serveOp (captureSettings values formatV))

/-- The message of an operation, if the logger lets it through. The action API
logs at the level of information. -/
def messageOf (level : Int) : AgentOp → Option Bytes
  | .api (.log text) => if level ≤ infoLevel then some text else none
  | .capture (.log at' text) => if level ≤ at' then some (utf8 text) else none
  | .capture (.stdLog text) => if level ≤ infoLevel then some (utf8 text) else none
  | _ => none

variable {World : Type} (level : Int)

def messages (trace : Trace AgentOp AgentOp.Reply World) : List Bytes :=
  trace.filterMap fun event => messageOf level event.op

variable (host : (op : AgentOp) → World → op.Reply × World)

def sessionLog (values : Field → Value) : List Activity → World → List Bytes
  | [], _ => []
  | activity :: rest, w =>
    let (trace, _, w') := play host (activity.program fmt formatV values) w
    messages level trace ++ sessionLog values rest w'

structure Launch where
  args : List String
  readConfig : String → Except ConfigError Document

def Launch.parse (flags : FlagPackage) (launch : Launch) : Except ConfigError (List Cell) :=
  parseFlags flags launch.readConfig launch.args defaultConfig

/-- The options that `ParseFlags` leaves in `GlobalConfig`. -/
def optionsIn (cells : List Cell) (field : Field) : Value :=
  match cells.find? fun cell => cell.field = field with
  | some cell => cell.value
  | none => defaultValue field

def logCLIArguments (args : List String) : List Bytes :=
  if level ≤ infoLevel then [ascii "CLI Arguments: " ++ formatSlice (args.map utf8)] else []

/-- The log of a run, from the start to the last of its activities. -/
def agentLog (flags : FlagPackage) (launch : Launch) (activities : List Activity) (w : World) :
    Except ConfigError (List Bytes) := do
  let cells ← launch.parse flags
  return logCLIArguments level launch.args ++
    sessionLog fmt formatV level host (optionsIn cells) activities w

end Session

/-- Past its own message, a request with the right key is served without it. -/
private theorem action_authorised (fmt : Fmt) (heapDump : Bool) (req : ActionRequest) :
    ∃ next : ActionProg Unit, ∀ key,
      action fmt ⟨key, heapDump⟩ (.body (.ok { req with key := key })) =
        hdText req >>= fun hd =>
          .act (.log (ascii "action request: " ++ fmt.request hd { req with key := key }))
            fun _ => next := by
  refine ⟨parseActions req.actions {} >>= serveParsed ⟨[], heapDump⟩ req >>= answer fmt, ?_⟩
  intro key
  have hhandle : handleActionAPI ⟨key, heapDump⟩ { req with key := key } =
      parseActions req.actions {} >>= serveParsed ⟨[], heapDump⟩ req := by
    rw [handleActionAPI, if_neg (by simp)]
    rfl
  simp only [action, hhandle]
  rfl

private theorem request_eq_iff (fmt : Fmt) (hd : Bytes) (req : ActionRequest) (key key' : Bytes) :
    fmt.request hd { req with key := key } = fmt.request hd { req with key := key' } ↔
      key = key' := by
  constructor
  · intro h
    have hquoted := List.append_cancel_left (List.append_cancel_right h)
    exact fmt.quote_injective hquoted
  · intro hkey
    rw [hkey]

section Alike

variable {fmt : Fmt} {formatV : Value → String} {World : Type} {level : Int}
  {host : (op : AgentOp) → World → op.Reply × World}

/-- The surroundings do not read the log of the API: what they answer later does not
depend on the text of its messages. -/
def Blind (host : (op : AgentOp) → World → op.Reply × World) : Prop :=
  ∀ line line' w, (host (.api (.log line)) w).2 = (host (.api (.log line')) w).2

private theorem hdText_quiet (o : CaptureSettings) (req : ActionRequest) (w : World) :
    messages level (play host ((hdText req).interpret (serveOp o)) w).1 = [] := by
  unfold hdText
  cases req.hd <;> rfl

/-- A decoded request writes its own message, and what it writes and does besides
does not depend on the key. -/
private theorem request_messages (fmt : Fmt) (level : Int) (hblind : Blind host)
    (o : CaptureSettings) (heapDump : Bool) (req : ActionRequest) (w : World) :
    ∃ hd later w', ∀ key,
      let outcome := play host ((action fmt ⟨key, heapDump⟩
        (.body (.ok { req with key := key }))).interpret (serveOp o)) w
      messages level outcome.1 =
          (if level ≤ infoLevel then
            [ascii "action request: " ++ fmt.request hd { req with key := key }] else []) ++ later ∧
        outcome.2.2 = w' := by
  obtain ⟨next, hnext⟩ := action_authorised fmt heapDump req
  let first := play host ((hdText req).interpret (serveOp o)) w
  let rest := play host (next.interpret (serveOp o)) (host (.api (.log [])) first.2.2).2
  refine ⟨first.2.1, messages level rest.1, rest.2.2, ?_⟩
  intro key outcome
  have houtcome : outcome =
      (first.1 ++ ⟨first.2.2, .api (.log (ascii "action request: " ++
        fmt.request first.2.1 { req with key := key })), ()⟩ :: rest.1, rest.2) := by
    simp only [outcome, rest, hnext key, Prog.interpret_bind, play_bind]
    rw [hblind [] (ascii "action request: " ++ fmt.request first.2.1 { req with key := key })]
    rfl
  have hquiet : messages level first.1 = [] := hdText_quiet o req w
  rw [houtcome]
  refine ⟨?_, rfl⟩
  rw [messages, List.filterMap_append, ← messages, hquiet, List.nil_append]
  by_cases hlevel : level ≤ infoLevel
  · simp [messageOf, messages, hlevel]
  · simp [messageOf, messages, hlevel]

variable {values values' : Field → Value}

private theorem heapDump_alike (h : SameButSecrets values values') :
    boolOption values "HeapDump" = boolOption values' "HeapDump" := by
  rw [boolOption, boolOption, option_alike h (by decide) (by decide)]

private theorem program_alike (h : SameButSecrets values values') {activity : Activity}
    (hplain : ¬ activity.Decoded) :
    activity.program fmt formatV values = activity.program fmt formatV values' := by
  have hsettings := captureSettings_alike h formatV
  match activity with
  | .capture c => rw [Activity.program, Activity.program, hsettings]
  | .request (.forward url) =>
    rw [Activity.program, Activity.program, hsettings]
    rfl
  | .request (.body (.error err)) =>
    rw [Activity.program, Activity.program, hsettings]
    rfl
  | .request (.body (.ok req)) => exact absurd trivial hplain

/-- The step of the session for a decoded request, where `rest` are the messages
that follow it. -/
private theorem decoded_step (fmt : Fmt) (level : Int) (hblind : Blind host)
    (h : SameButSecrets values values') (req : ActionRequest) (w : World) :
    let run (v : Field → Value) :=
      play host ((Activity.request (.body (.ok req))).program fmt formatV v) w
    (run values).2.2 = (run values').2.2 ∧ ∀ rest rest' : List Bytes,
      messages level (run values).1 ++ rest = messages level (run values').1 ++ rest' ↔
        (level ≤ infoLevel → apiKeyOf values = apiKeyOf values') ∧ rest = rest' := by
  intro run
  obtain ⟨hd, later, w', hrun⟩ := request_messages fmt level hblind
    (captureSettings values formatV) (boolOption values "HeapDump") req w
  have hleft := hrun (apiKeyOf values)
  have hright := hrun (apiKeyOf values')
  rw [captureSettings_alike h formatV, heapDump_alike h] at hright
  refine ⟨hleft.2.trans hright.2.symm, ?_⟩
  intro rest rest'
  have hmessages : messages level (run values).1 = _ := hleft.1
  have hmessages' : messages level (run values').1 = _ := hright.1
  rw [hmessages, hmessages']
  by_cases hlevel : level ≤ infoLevel
  · simp [hlevel, request_eq_iff]
  · simp [hlevel]

/-- The messages of a session tell the keys apart exactly if a request with its
key is logged. -/
theorem sessionLog_alike_iff (hblind : Blind host) (h : SameButSecrets values values')
    (activities : List Activity) (w : World) :
    sessionLog fmt formatV level host values activities w =
        sessionLog fmt formatV level host values' activities w ↔
      level ≤ infoLevel → apiKeyOf values = apiKeyOf values' ∨
        ∀ activity ∈ activities, ¬ activity.Decoded := by
  induction activities generalizing w with
  | nil => simp [sessionLog]
  | cons activity rest ih =>
    by_cases hdecoded : activity.Decoded
    · match activity, hdecoded with
      | .request (.body (.ok req)), hdecoded =>
        obtain ⟨hworld, hstep⟩ := decoded_step fmt level hblind h req w
        simp only [sessionLog]
        rw [hstep, hworld, ih]
        simp only [List.forall_mem_cons, hdecoded, not_true_eq_false, false_and, or_false]
        constructor
        · exact And.left
        · intro hkey
          exact ⟨hkey, fun hlevel => .inl (hkey hlevel)⟩
    · have hprogram : activity.program fmt formatV values =
          activity.program fmt formatV values' := program_alike h hdecoded
      simp only [sessionLog, hprogram, List.append_cancel_left_eq, ih, List.forall_mem_cons,
        hdecoded, not_false_eq_true, true_and]

def commandLine (args : List String) : Bytes := (ascii " ").intercalate (args.map utf8)

private theorem formatSlice_eq_iff (items items' : List Bytes) :
    formatSlice items = formatSlice items' ↔
      (ascii " ").intercalate items = (ascii " ").intercalate items' := by
  rw [formatSlice, formatSlice, List.append_left_inj, List.append_right_inj]

/-- Two runs that differ only in the API key and the Boomi password, with action
requests that carry the right key, write the same log exactly if messages of
information are off, or the secrets are not on the command line and the key
does not come with a request. -/
theorem logs_alike_iff {flags : FlagPackage} {launch launch' : Launch} {cells cells' : List Cell}
    (hparse : launch.parse flags = .ok cells) (hparse' : launch'.parse flags = .ok cells')
    (hsame : SameButSecrets (optionsIn cells) (optionsIn cells')) (hblind : Blind host)
    (activities : List Activity) (w : World) :
    agentLog fmt formatV level host flags launch activities w =
        agentLog fmt formatV level host flags launch' activities w ↔
      infoLevel < level ∨ commandLine launch.args = commandLine launch'.args ∧
        (apiKeyOf (optionsIn cells) = apiKeyOf (optionsIn cells') ∨
          ∀ activity ∈ activities, ¬ activity.Decoded) := by
  have hsession : sessionLog fmt formatV level host (optionsIn cells) activities w =
      sessionLog fmt formatV level host (optionsIn cells') activities w ↔ _ :=
    sessionLog_alike_iff hblind hsame activities w
  simp only [agentLog, hparse, hparse', logCLIArguments]
  by_cases hlevel : level ≤ infoLevel
  · have hlow : ¬ infoLevel < level := by omega
    simp [hlevel, hlow, formatSlice_eq_iff, hsession, commandLine, pure, Except.pure, bind,
      Except.bind]
  · have hhigh : infoLevel < level := by omega
    simp [hlevel, hsession, hhigh, pure, Except.pure, bind, Except.bind]

end Alike

section Sample

def secretDocument (secret : String) : Document := fun key =>
  if key = "k" ∨ key = "boomiPassword" then some (.str secret) else none

def sampleLaunch (secret : String) : Launch := ⟨sampleArgs, fun _ => .ok (secretDocument secret)⟩

def sampleCells (secret : String) : List Cell :=
  ((sampleLaunch secret).parse sampleFlags).toOption.getD []

private theorem sample_options : ∀ field ∈ optionFields,
    if field.Sensitive then
      optionsIn (sampleCells "aaa") field = .str "aaa" ∧
        optionsIn (sampleCells "bbb") field = .str "bbb"
    else optionsIn (sampleCells "aaa") field = optionsIn (sampleCells "bbb") field := by
  decide +kernel

private theorem sample_same :
    SameButSecrets (optionsIn (sampleCells "aaa")) (optionsIn (sampleCells "bbb")) where
  same := by
    intro field hfield hsensitive
    have hoptions := sample_options field hfield
    rwa [if_neg hsensitive] at hoptions
  set := by
    intro field hfield hsensitive
    have hoptions := sample_options field hfield
    rw [if_pos hsensitive] at hoptions
    exact ⟨⟨"aaa", hoptions.1, by decide⟩, "bbb", hoptions.2, by decide⟩

private theorem sample_parsed :
    (sampleLaunch "aaa").parse sampleFlags = .ok (sampleCells "aaa") ∧
      (sampleLaunch "bbb").parse sampleFlags = .ok (sampleCells "bbb") := by
  have hparsed : ∀ secret ∈ ["aaa", "bbb"],
      ((sampleLaunch secret).parse sampleFlags).toOption.map (fun _ => ()) = some () := by
    decide +kernel
  constructor
  · obtain ⟨cells, hcells, _⟩ := ok_of_toOption_map (hparsed "aaa" (by simp))
    simp [sampleCells, hcells, Except.toOption]
  · obtain ⟨cells, hcells, _⟩ := ok_of_toOption_map (hparsed "bbb" (by simp))
    simp [sampleCells, hcells, Except.toOption]

def sampleFmt : Fmt where
  quote b := 34 :: (b ++ [34])
  quote_injective := by
    intro b b' h
    exact List.append_cancel_right (List.cons.inj h).2
  slice := formatSlice
  response := formatResponse

def quietAction : (op : ActionOp) → op.Reply
  | .getTopCpu | .getTopMem => Except.ok 7
  | .getProcessIds _ => Except.ok []
  | .attend | .log _ => ()
  | .isProcessExists _ => true
  | .processPids _ _ _ _ => ([], none)
  | .rangeResults keys => keys
  | .hdAddress => ascii "0xc000012345"
  | .forward _ => ({}, none)
  | .encode _ => none

def quietHost : (op : AgentOp) → Unit → op.Reply × Unit
  | .api op, w => (quietAction op, w)
  | .capture op, w => (quietCapture op, w)

def sampleCapture : Capture := ⟨7, "buggyApp", false, "", ""⟩

theorem secrets_in_file_unlogged :
    agentLog sampleFmt (fun _ => "") infoLevel quietHost sampleFlags (sampleLaunch "aaa")
        [.capture sampleCapture, .request (.forward (ascii "server"))] () =
      agentLog sampleFmt (fun _ => "") infoLevel quietHost sampleFlags (sampleLaunch "bbb")
        [.capture sampleCapture, .request (.forward (ascii "server"))] () := by
  apply (logs_alike_iff sample_parsed.1 sample_parsed.2 sample_same (fun _ _ _ => rfl) _ _).mpr
  refine .inr ⟨rfl, .inr ?_⟩
  intro activity hactivity hdecoded
  rcases List.mem_pair.mp hactivity with rfl | rfl
  · exact hdecoded
  · exact hdecoded

def sampleRequest : Activity := .request (.body (.ok ⟨[], [ascii "attendance"], false, none, []⟩))

/-- The request of a caller with the right key tells the key to the log. -/
theorem request_key_logged :
    (sampleLaunch "aaa").parse sampleFlags = .ok (sampleCells "aaa") ∧
      (sampleLaunch "bbb").parse sampleFlags = .ok (sampleCells "bbb") ∧
      SameButSecrets (optionsIn (sampleCells "aaa")) (optionsIn (sampleCells "bbb")) ∧
      Blind quietHost ∧
      agentLog sampleFmt (fun _ => "") infoLevel quietHost sampleFlags (sampleLaunch "aaa")
          [sampleRequest] () ≠
        agentLog sampleFmt (fun _ => "") infoLevel quietHost sampleFlags (sampleLaunch "bbb")
          [sampleRequest] () := by
  refine ⟨sample_parsed.1, sample_parsed.2, sample_same, fun _ _ _ => rfl, ?_⟩
  intro heq
  have hlogs := congrArg Except.toOption heq
  revert hlogs
  decide +kernel

end Sample

end YcAgent.Agent
