import YcAgent.Agent.LogSecrecy
import YcAgent.Agent.M3Cycle
import YcAgent.Lib.Search

/-!
The end of an M3 cycle: the server's response names the processes to capture,
with a timestamp for each action. `ParseM3FinResponse` keeps the actions that
name a pid and `ProcessPids` the pids that are new, and each leaves the list of
timestamps as it was. `FullCapture` is an operation here; its own program is put
in its place at the end of the model.
-/

namespace YcAgent.Agent

open Go Config Lib.Program Lib.Search Ondemand.CaptureLog

structure M3FinResponse where
  actions : List String
  tags : List String
  timestamp : String
  timestamps : List String

def actionPid (s : String) : Option Int :=
  if "capture ".toList.isPrefixOf s.toList then
    match s.toList.splitOn ' ' with
    | [_, id] => atoi id
    | _ => none
  else none

structure ParsedFin where
  pids : List Int
  tags : List String
  timestamps : List String

/-- The timestamps, with the legacy field in the place of an empty list. -/
def M3FinResponse.stamps (r : M3FinResponse) : List String :=
  if 0 < r.timestamps.length then r.timestamps
  else if r.timestamp ≠ "" then [r.timestamp]
  else []

/-- `ParseM3FinResponse`, given what `json.Unmarshal` made of the response. -/
def parseM3FinResponse (resp : Except String M3FinResponse) : Except String ParsedFin := do
  let r ← resp
  return ⟨r.actions.filterMap actionPid, r.tags, r.stamps⟩

inductive IncidentOp where
  | fullCapture (c : Capture) (dotnetAsyncGCPaths : GoMap Int String)
  | runCaptureCmd (pid : Int) (cmd : String)
  | log (text : String)

def IncidentOp.Reply : IncidentOp → Type
  | .fullCapture _ _ => String
  | .runCaptureCmd _ _ => Option String
  | .log _ => Unit

abbrev IncidentProg := Prog IncidentOp IncidentOp.Reply

def askIncident (op : IncidentOp) : IncidentProg op.Reply := .perform op

@[simp] theorem askIncident_bind {β : Type} (op : IncidentOp) (k : op.Reply → IncidentProg β) :
    (askIncident op >>= k) = .act op k := rfl

/-- What `ProcessPids` is called with besides the pids. -/
structure IncidentArgs where
  pid2Name : GoMap Int String
  hd : Bool
  tags : String
  timestamps : List String
  dotnetAsyncGCPaths : GoMap Int String

/-- The call for the `i`-th pid. -/
def IncidentArgs.capture (a : IncidentArgs) (o : CaptureSettings) (i : Nat) (pid : Int) : Capture :=
  ⟨pid, (a.pid2Name.lookup pid).getD o.appName, a.hd, a.tags, a.timestamps[i]?.getD ""⟩

/-- The URLs are listed in the order of the pids. -/
def withUrl (url : String) (later : List String) : List String :=
  if url = "" then later else url :: later

/-- The loop of `ProcessPids` from the `i`-th pid on. -/
def captureEach (o : CaptureSettings) (a : IncidentArgs) :
    Nat → List Int → IncidentProg (List String)
  | _, [] => return []
  | i, pid :: rest => do
    if o.captureCmd ≠ "" then
      match ← askIncident (.runCaptureCmd pid o.captureCmd) with
      | some e =>
        askIncident (.log s!"WARNING: runCaptureCmd failed {e}")
        captureEach o a (i + 1) rest
      | none => captureEach o a (i + 1) rest
    else
      let url ← askIncident (.fullCapture (a.capture o i pid) a.dotnetAsyncGCPaths)
      let rUrls ← captureEach o a (i + 1) rest
      return withUrl url rUrls

def capturePids (o : CaptureSettings) (a : IncidentArgs) (pids : List Int) :
    IncidentProg (List String) :=
  if pids = [] then do
    askIncident (.log "Empty pids, no action needed.")
    return []
  else captureEach o a 0 pids.eraseDups

/-- The async GC logs of the .NET processes among the pids. -/
def M3App.asyncPaths (m3 : M3App) (pids : List Int) : GoMap Int String :=
  pids.foldl (fun paths pid =>
    match m3.asyncDotNetGCCapture.getLogPath pid with
    | some logPath => paths.insert pid logPath
    | none => paths) ∅

def M3App.incidentArgs (m3 : M3App) (o : CaptureSettings) (heapDump : Bool) (parsed : ParsedFin)
    (pid2Name : GoMap Int String) : IncidentArgs where
  pid2Name := pid2Name
  hd := heapDump
  tags := configuredTags o.tags (",".intercalate parsed.tags)
  timestamps := parsed.timestamps
  dotnetAsyncGCPaths := m3.asyncPaths parsed.pids

def M3App.processM3FinResponse (m3 : M3App) (o : CaptureSettings) (heapDump : Bool)
    (resp : Except String M3FinResponse) (pid2Name : GoMap Int String) :
    IncidentProg (Option String) :=
  match parseM3FinResponse resp with
  | .error err => do
    askIncident (.log s!"WARNING: Get PID from ParseJsonResp failed, {err}")
    return some err
  | .ok parsed => do
    let _ ← capturePids o (m3.incidentArgs o heapDump parsed pid2Name) parsed.pids
    return none

/-- The program of each operation; the async GC logs go to the capture of the GC
log, which is one operation there. -/
def incidentOp (o : CaptureSettings) : (op : IncidentOp) → CaptureProg op.Reply
  | .fullCapture c _ => fullCapture o c
  | .runCaptureCmd pid cmd => askCapture (.runCaptureCmd pid cmd)
  | .log text => logInfo text

theorem captureEach_interpret (o : CaptureSettings) (a : IncidentArgs) (i : Nat) (pids : List Int) :
    (captureEach o a i pids).interpret (incidentOp o) =
      processEach o a.pid2Name.lookup a.hd a.tags (a.timestamps.drop i) pids := by
  induction pids generalizing i with
  | nil => rfl
  | cons pid rest ih =>
    have hstamp : (a.timestamps.drop i).headD "" = a.timestamps[i]?.getD "" := by
      rw [List.headD_eq_head?_getD, List.head?_drop]
    rw [captureEach, processEach, List.tail_drop, ← ih, hstamp]
    by_cases hcmd : o.captureCmd ≠ ""
    · rw [if_pos hcmd, if_pos hcmd]
      simp only [askIncident_bind, Prog.interpret, incidentOp]
      apply bind_congr
      intro err
      cases err with
      | none => rfl
      | some e => rfl
    · rw [if_neg hcmd, if_neg hcmd]
      simp only [askIncident_bind, Prog.interpret, incidentOp, Prog.interpret_bind]
      apply bind_congr
      intro url
      rfl

/-- With `FullCapture` in its place, this is the `ProcessPids` of the captures. -/
theorem capturePids_interpret (o : CaptureSettings) (a : IncidentArgs) (pids : List Int) :
    (capturePids o a pids).interpret (incidentOp o) =
      processPids o pids a.pid2Name.lookup a.hd a.tags a.timestamps := by
  rw [capturePids, processPids]
  split
  · rfl
  · exact captureEach_interpret o a 0 pids.eraseDups

abbrev IncidentTrace := Trace IncidentOp IncidentOp.Reply Unit

def anyReply : (op : IncidentOp) → Unit → op.Reply → Unit → Prop := fun _ _ _ _ => True

def capturedBy : IncidentOp → Option Capture
  | .fullCapture c _ => some c
  | _ => none

def captures (trace : IncidentTrace) : List Capture := trace.filterMap fun e => capturedBy e.op

theorem captureEach_captures {o : CaptureSettings} {a : IncidentArgs} {i : Nat} {pids : List Int}
    {trace : IncidentTrace} {urls : List String}
    (h : Runs anyReply (captureEach o a i pids) () trace urls ()) :
    captures trace =
      if o.captureCmd = "" then pids.mapIdx fun k pid => a.capture o (i + k) pid else [] := by
  induction pids generalizing i trace urls with
  | nil =>
    obtain ⟨rfl, -, -⟩ := h.of_done
    simp [captures]
  | cons pid rest ih =>
    rw [captureEach] at h
    by_cases hcmd : o.captureCmd = ""
    · rw [if_neg (not_not.mpr hcmd), askIncident_bind] at h
      obtain ⟨url, _, more, -, htrace, hmore⟩ := h.of_act
      obtain ⟨first, rUrls, _, second, hsplit, hfirst, hsecond⟩ := hmore.of_bind
      obtain ⟨hnil, -, -⟩ := hsecond.of_done
      have hrest : captures first = rest.mapIdx fun k pid => a.capture o (i + (k + 1)) pid := by
        rw [ih hfirst, if_pos hcmd]
        simp only [Nat.add_assoc, Nat.add_comm 1]
      rw [if_pos hcmd, List.mapIdx_cons, Nat.add_zero, ← hrest, htrace, hsplit, hnil,
        List.append_nil]
      rfl
    · rw [if_pos hcmd, askIncident_bind] at h
      obtain ⟨err, _, more, -, htrace, hmore⟩ := h.of_act
      have hrest : captures more = [] := by
        cases err with
        | none =>
          rw [ih hmore, if_neg hcmd]
        | some e =>
          obtain ⟨_, _, rest', -, hlog, hmore⟩ := Runs.of_act hmore
          have hlater := ih hmore
          rw [if_neg hcmd] at hlater
          rw [hlog]
          exact hlater
      rw [if_neg hcmd, htrace]
      exact hrest

/-- The calls for a response: none if a capture command is configured, else one
for each pid in the order in which they are first named. -/
theorem capturePids_captures {o : CaptureSettings} {a : IncidentArgs} {pids : List Int}
    {trace : IncidentTrace} {urls : List String}
    (h : Runs anyReply (capturePids o a pids) () trace urls ()) :
    captures trace = if o.captureCmd = "" then pids.eraseDups.mapIdx (a.capture o) else [] := by
  rw [capturePids] at h
  split at h
  · next hnil =>
      obtain ⟨_, _, more, -, htrace, hmore⟩ := Runs.of_act h
      obtain ⟨hmore, -, -⟩ := hmore.of_done
      rw [htrace, hmore, hnil]
      simp [captures, capturedBy]
  · have hcaptures := captureEach_captures h
    simpa only [Nat.zero_add] using hcaptures

structure FirstNaming (r : M3FinResponse) (before : List String) (a : String)
    (after : List String) (pid : Int) : Prop where
  actions_eq : r.actions = before ++ a :: after
  names : actionPid a = some pid
  new : pid ∉ before.filterMap actionPid

def namedCount (actions : List String) : Nat := (actions.filterMap actionPid).eraseDups.length

theorem namedCount_le (actions : List String) : namedCount actions ≤ actions.length :=
  (length_eraseDups_le _).trans (List.length_filterMap_le _ _)

theorem FirstNaming.getElem? {r : M3FinResponse} {before after : List String} {s : String}
    {pid : Int} (h : FirstNaming r before s after pid) (i : Nat) :
    (r.actions.filterMap actionPid).eraseDups[i]? = some pid ↔ i = namedCount before := by
  have hpids : r.actions.filterMap actionPid =
      before.filterMap actionPid ++ pid :: after.filterMap actionPid := by
    rw [h.actions_eq, List.filterMap_append, List.filterMap_cons_some h.names]
  rw [hpids]
  exact eraseDups_getElem?_iff h.new i

theorem FirstNaming.unique {r : M3FinResponse} {before before' after after' : List String}
    {s s' : String} {pid : Int} (h : FirstNaming r before s after pid)
    (h' : FirstNaming r before' s' after' pid) : before = before' := by
  have hnamed {before between : List String} {s : String} (hs : actionPid s = some pid) :
      pid ∈ (before ++ s :: between).filterMap actionPid := by
    rw [List.filterMap_append, List.filterMap_cons_some hs]
    exact List.mem_append_right _ List.mem_cons_self
  rcases Lib.Lines.place_cases (h.actions_eq.symm.trans h'.actions_eq) with
    ⟨hbefore, -⟩ | ⟨between, hbetween⟩ | ⟨between, hbetween⟩
  · exact hbefore
  · exact absurd (hbetween ▸ hnamed h.names) h'.new
  · exact absurd (hbetween ▸ hnamed h'.names) h.new

/-- Each capture has the timestamp that stands where its pid is first named. The
server is to send one timestamp for each action. -/
def TimestampsKept (r : M3FinResponse) (calls : List Capture) : Prop :=
  ∀ c ∈ calls, ∃ before s after, FirstNaming r before s after c.pid ∧
    r.timestamps[before.length]? = some c.timestamp

/-- The actions before a first naming name as many different processes as they
are, or the timestamps do not tell. -/
def Aligned (r : M3FinResponse) : Prop :=
  ∀ before s after pid, FirstNaming r before s after pid →
    r.timestamps[namedCount before]? = r.timestamps[before.length]?

theorem processM3FinResponse_captures {m3 : M3App} {o : CaptureSettings} {heapDump : Bool}
    {r : M3FinResponse} {pid2Name : GoMap Int String} {trace : IncidentTrace} {err : Option String}
    (h : Runs anyReply (m3.processM3FinResponse o heapDump (.ok r) pid2Name) () trace err ()) :
    captures trace =
      if o.captureCmd = "" then
        (r.actions.filterMap actionPid).eraseDups.mapIdx
          ((m3.incidentArgs o heapDump ⟨r.actions.filterMap actionPid, r.tags, r.stamps⟩
            pid2Name).capture o)
      else [] := by
  obtain ⟨first, urls, _, second, hsplit, hfirst, hsecond⟩ := Runs.of_bind h
  obtain ⟨hnil, -, -⟩ := hsecond.of_done
  rw [hsplit, hnil, List.append_nil]
  exact capturePids_captures hfirst

theorem timestampsKept_iff {o : CaptureSettings} {a : IncidentArgs} {r : M3FinResponse}
    (hparallel : r.timestamps.length = r.actions.length) (hstamps : a.timestamps = r.stamps) :
    TimestampsKept r ((r.actions.filterMap actionPid).eraseDups.mapIdx (a.capture o)) ↔
      Aligned r := by
  have hat {before after : List String} {s : String} {pid : Int}
      (hfirst : FirstNaming r before s after pid) :
      r.timestamps[namedCount before]? =
        some (a.capture o (namedCount before) pid).timestamp := by
    have hle := namedCount_le before
    have hlt : namedCount before < r.timestamps.length := by
      rw [hparallel, hfirst.actions_eq, List.length_append, List.length_cons]
      omega
    have hlist : r.stamps = r.timestamps := if_pos (by omega)
    rw [IncidentArgs.capture, hstamps, hlist, List.getElem?_eq_getElem hlt, Option.getD_some]
  constructor
  · intro h before s after pid hfirst
    have hindex := (hfirst.getElem? (namedCount before)).mpr rfl
    have hcall : a.capture o (namedCount before) pid ∈
        (r.actions.filterMap actionPid).eraseDups.mapIdx (a.capture o) := by
      apply List.mem_of_getElem? (i := namedCount before)
      rw [List.getElem?_mapIdx, hindex, Option.map_some]
    obtain ⟨before', s', after', hfirst', hstamp⟩ := h _ hcall
    rw [hfirst.unique hfirst', hstamp, ← hfirst.unique hfirst']
    exact hat hfirst
  · intro h c hc
    obtain ⟨i, hi⟩ := List.mem_iff_getElem?.mp hc
    rw [List.getElem?_mapIdx] at hi
    obtain ⟨pid, hpid, hcall⟩ := Option.map_eq_some_iff.mp hi
    have hmem : pid ∈ r.actions.filterMap actionPid :=
      List.mem_eraseDups.mp (List.mem_of_getElem? hpid)
    obtain ⟨before, s, after, hactions, hnames, hnew⟩ := exists_first_filterMap hmem
    have hfirst : FirstNaming r before s after pid := ⟨hactions, hnames, hnew⟩
    have hindex := (hfirst.getElem? i).mp hpid
    rw [← hcall]
    refine ⟨before, s, after, hfirst, ?_⟩
    rw [← h before s after pid hfirst, hindex]
    exact hat hfirst

def quietIncident : (op : IncidentOp) → Unit → op.Reply × Unit
  | .fullCapture _ _, _ => ("", ())
  | .runCaptureCmd _ _, _ => (Option.none, ())
  | .log _, _ => ((), ())

/-- For every response whose timestamps are parallel to its actions, each capture
of each run has the timestamp of the first action that names its pid if and only
if a capture command stands in for the captures or, before each first naming,
dropped actions have not changed the timestamp. -/
theorem incident_timestamps_kept_iff (m3 : M3App) (o : CaptureSettings) (heapDump : Bool)
    (pid2Name : GoMap Int String) (r : M3FinResponse)
    (hparallel : r.timestamps.length = r.actions.length) :
    (∀ trace err,
      Runs anyReply (m3.processM3FinResponse o heapDump (.ok r) pid2Name) () trace err () →
        TimestampsKept r (captures trace)) ↔
      o.captureCmd ≠ "" ∨ Aligned r := by
  have hkept := timestampsKept_iff (o := o) (a := m3.incidentArgs o heapDump
    ⟨r.actions.filterMap actionPid, r.tags, r.stamps⟩ pid2Name) hparallel rfl
  constructor
  · intro h
    by_cases hcmd : o.captureCmd = ""
    · right
      have hhost : ∀ op w, anyReply op w (quietIncident op w).1 (quietIncident op w).2 :=
        fun _ _ => trivial
      have hrun := play_runs hhost (m3.processM3FinResponse o heapDump (.ok r) pid2Name) ()
      have hcaptures := processM3FinResponse_captures hrun
      rw [if_pos hcmd] at hcaptures
      apply hkept.mp
      rw [← hcaptures]
      exact h _ _ hrun
    · exact .inl hcmd
  · intro h trace err hrun
    rw [processM3FinResponse_captures hrun]
    rcases h with hcmd | haligned
    · rw [if_neg hcmd]
      intro c hc
      cases hc
    · split
      · exact hkept.mpr haligned
      · intro c hc
        cases hc

theorem aligned_of_places {r : M3FinResponse}
    (h : ∀ k, k < r.actions.length →
      r.timestamps[namedCount (r.actions.take k)]? = r.timestamps[k]?) : Aligned r := by
  intro before s after pid hfirst
  have hlt : before.length < r.actions.length := by
    rw [hfirst.actions_eq, List.length_append, List.length_cons]
    omega
  have hplace := h before.length hlt
  rwa [hfirst.actions_eq, List.take_left] at hplace

def shopSettings : CaptureSettings where
  flags := ""
  appName := "shop"
  captureCmd := ""
  tags := ""
  server := "https://yc"
  storagePath := ""
  m3 := true
  deferDelete := false
  onlyCapture := false
  minimalTouch := false
  log2File := false
  gcPath := ""
  tdPath := ""
  hdPath := ""
  boomi := false
  boomiUrl := ""
  appLog := ""
  appLogs := []
  appLogLineCount := 1000
  edScript := ""
  edDataFolder := ""
  commands := []

def twoIncidents : M3FinResponse :=
  ⟨["capture 17", "capture 18"], [], "", ["t0", "t1"]⟩

theorem two_processes_kept :
    TimestampsKept twoIncidents (captures (play quietIncident
      ((newM3App "/tmp").processM3FinResponse shopSettings false (.ok twoIncidents) ∅) ()).1) := by
  have haligned : Aligned twoIncidents := aligned_of_places (by decide)
  apply (incident_timestamps_kept_iff (newM3App "/tmp") shopSettings false ∅ twoIncidents rfl).mpr
    (.inr haligned)
  exact play_runs (fun _ _ => trivial) _ ()

/-- Process 18 is captured with the timestamp of the action before, because the
first action is not a capture, and because it repeats a pid. -/
theorem timestamp_of_other_action :
    (captures (play quietIncident ((newM3App "/tmp").processM3FinResponse shopSettings false
      (.ok ⟨["restart", "capture 18"], [], "", ["t0", "t1"]⟩) ∅) ()).1).map
        (fun c => (c.pid, c.timestamp)) = [(18, "t0")] ∧
      (captures (play quietIncident ((newM3App "/tmp").processM3FinResponse shopSettings false
        (.ok ⟨["capture 17", "capture 17", "capture 18"], [], "", ["t0", "t1", "t2"]⟩) ∅) ()).1).map
          (fun c => (c.pid, c.timestamp)) = [(17, "t0"), (18, "t1")] := by
  decide

end YcAgent.Agent
