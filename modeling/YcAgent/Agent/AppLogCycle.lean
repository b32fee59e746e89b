import YcAgent.Capture.GCLog
import YcAgent.Capture.Host
import YcAgent.Capture.TailM3
import YcAgent.Lib.FirstServed
import YcAgent.Ondemand.CaptureLog

/-!
The application logs of an M3 cycle. `captureAndTransmit` visits the processes
in the order of a map range; `uploadAppLogM3` picks the log patterns of a
process and `AppLogM3.Run` tails every file they match. The read positions are
kept under the path of the log alone, while an upload carries a process id.
Logs grow between the cycles.
-/

namespace YcAgent.Agent

open Go Lib.Program Lib.FirstServed Capture Ondemand.CaptureLog

inductive AppLogOp where
  | tail (op : Tail.Op)
  | zglob (pattern : String)
  | discoverOpenedLogFiles (pid : Pid)
  | filepathGlob (pattern : Path)
  | captureRuntime (pid : Pid)
  | rangeOrder (keys : List Pid)

/-- The captures that depend on the runtime answer with the path of the GC
log. -/
def AppLogOp.Reply : AppLogOp → Type
  | .tail op => op.Reply
  | .zglob _ => Except IOError (List Path)
  | .discoverOpenedLogFiles _ => List Path × Option IOError
  | .filepathGlob _ => List Path × Option IOError
  | .captureRuntime _ => Path
  | .rangeOrder keys => { order : List Pid // order.Perm keys }

abbrev AppLogProg := Prog AppLogOp AppLogOp.Reply

def askAppLog (op : AppLogOp) : AppLogProg op.Reply := .perform op

@[simp] theorem askAppLog_bind {β : Type} (op : AppLogOp) (k : op.Reply → AppLogProg β) :
    (askAppLog op >>= k) = .act op k := rfl

inductive AppLogError where
  | glob (err : IOError)
  | capture (err : CaptureError)

def AppLogError.text : AppLogError → String
  | .glob err => err
  | .capture err => err.what ++ " \"" ++ err.path ++ "\": " ++ err.cause

abbrev AppLogResult := Result × Option AppLogError

def summaryOf (entry : AppLogResult) : String :=
  let err := match entry.2 with
    | some err => "\nErr: " ++ err.text
    | none => ""
  s!"Msg: {entry.1.msg}\nOk: {entry.1.ok}" ++ err ++ "\n----\n"

/-- An error counts only if nothing succeeded. -/
def summarizeResults (results : List AppLogResult) : AppLogResult :=
  let msg := String.join (results.map summaryOf)
  let hasSuccess := results.any fun entry => entry.1.ok
  let lastErr := (results.filterMap Prod.snd).getLast?
  if hasSuccess then (⟨msg, true⟩, none) else (⟨msg, false⟩, lastErr)

namespace AppLogM3

def captureMatch (path : Path) (pid : Pid) : AppLogProg AppLogResult := do
  match ← (Tail.captureSingleAppLog path pid).interpret fun op => askAppLog (.tail op) with
  | .ok result => return (result, none)
  | .error err => return (⟨"", false⟩, some (.capture err))

def captureMatches (pid : Pid) : List Path → AppLogProg (List AppLogResult)
  | [] => return []
  | path :: rest => do
    let result ← captureMatch path pid
    let results ← captureMatches pid rest
    return result :: results

def capturePattern (pid : Pid) (pattern : String) : AppLogProg (List AppLogResult) := do
  match ← askAppLog (.zglob pattern) with
  | .error err => return [(⟨"invalid glob pattern \"" ++ pattern ++ "\"", false⟩, some (.glob err))]
  | .ok matching => captureMatches pid matching

def capturePatterns (pid : Pid) : List String → AppLogProg (List AppLogResult)
  | [] => return []
  | pattern :: rest => do
    let first ← capturePattern pid pattern
    let results ← capturePatterns pid rest
    return first ++ results

/-- The outer loop of `Run`. -/
def capturePids (paths : GoMap Pid (List String)) : List Pid → AppLogProg (List AppLogResult)
  | [] => return []
  | pid :: rest => do
    let first ← capturePatterns pid ((paths.lookup pid).getD [])
    let results ← capturePids paths rest
    return first ++ results

def run (paths : GoMap Pid (List String)) : AppLogProg AppLogResult := do
  let order ← askAppLog (.rangeOrder paths.keys)
  let results ← capturePids paths order.1
  return summarizeResults results

end AppLogM3

/-- The configured patterns for an application: with a `$` in any of them, those
that end in `$` and its name. -/
def configuredAppLogs (appLogs : List String) (appName : String) : List String :=
  if appLogs.any fun pattern => pattern.toList.contains '$' then
    appLogs.filterMap fun pattern => cutSuffix pattern ("$" ++ appName)
  else appLogs

/-- The log files a process has open, without those of its GC log. -/
def withoutGCLogs (globFiles discovered : List Path) : List Path :=
  discovered.filter fun f => !globFiles.any fun name => bytesContains (utf8 f) (utf8 name)

/-- `paths := make(map[int]config.AppLogs); paths[pid] = appLogs`. -/
def onePid (pid : Pid) (patterns : List String) : GoMap Pid (List String) :=
  AList.singleton pid patterns

def uploadAppLogM3 (appLogs : List String) (pid : Pid) (appName : String) (gcPath : Path) :
    AppLogProg AppLogResult :=
  match configuredAppLogs appLogs appName with
  | [] => do
    let (discovered, _) ← askAppLog (.discoverOpenedLogFiles pid)
    let (globFiles, _) ← askAppLog (.filepathGlob (getGlobPatternFromGCPath gcPath pid))
    AppLogM3.run (onePid pid (withoutGCLogs globFiles discovered))
  | chosen => AppLogM3.run (onePid pid chosen)

/-- The rounds of `captureAndTransmit`, as far as they concern these logs. -/
def captureAppLogsOf (appLogs : List String) (pids : GoMap Pid String) : List Pid → AppLogProg Unit
  | [] => return ()
  | pid :: rest => do
    let gcPath ← askAppLog (.captureRuntime pid)
    let _ ← uploadAppLogM3 appLogs pid ((pids.lookup pid).getD "") gcPath
    captureAppLogsOf appLogs pids rest

def captureAppLogs (appLogs : List String) (pids : GoMap Pid String) : AppLogProg Unit := do
  let order ← askAppLog (.rangeOrder pids.keys)
  captureAppLogsOf appLogs pids order.1

/-- What a cycle finds: the processes, the logs as they are while it runs, what
the searches for files answer, and a server that accepts every upload. -/
structure AppLogCycle where
  pids : GoMap Pid String
  files : Path → Option Inode
  content : Inode → Bytes
  zglob : String → Except IOError (List Path)
  discovered : Pid → List Path × Option IOError
  filepathGlob : Path → List Path × Option IOError
  gcPath : Pid → Path
  uniquePath : (String → Option Bytes) → String → String → String
  agent : Tail.Agent
  net : PostReplies
  accepted : ∀ dt (file : Upload), file.content ≠ [] →
    (postData agent.post agent.endpoint dt (some file) net).2 = true

/-- The order in which a `range` visits the keys of a map. -/
abbrev RangeOrder := (keys : List Pid) → { order : List Pid // order.Perm keys }

structure Sent where
  dt : String
  bytes : Bytes
  deriving DecidableEq, Repr

def appLogDt (pid : Pid) (path : Path) : String :=
  Tail.appLog.dt ++ "&logName=" ++ filepathBase path ++ "&pid=" ++ toString pid

def sentByTail (w : Tail.World) : (op : Tail.Op) → op.Reply → Option Sent
  | .post dt name, reply => if Prod.snd reply then (w.dir name).map (⟨dt, ·⟩) else none
  | _, _ => none

def sentBy (w : Tail.World) : (op : AppLogOp) → op.Reply → Option Sent
  | .tail op, reply => sentByTail w op reply
  | _, _ => none

def tailUploads (trace : Trace Tail.Op Tail.Op.Reply Tail.World) : List Sent :=
  trace.filterMap fun e => sentByTail e.before e.op e.reply

def uploads (trace : Trace AppLogOp AppLogOp.Reply Tail.World) : List Sent :=
  trace.filterMap fun e => sentBy e.before e.op e.reply

namespace AppLogCycle

variable (c : AppLogCycle)

def answerTail : (op : Tail.Op) → Tail.World → op.Reply × Tail.World
  | .stat path, w => match w.files path with
      | some i => (.ok (w.content i).length, w)
      | none => (.error "no such file or directory", w)
  | .openFile path, w => match w.files path with
      | some i => (.ok ⟨i, 0⟩, w)
      | none => (.error "no such file or directory", w)
  | .lookup path, w => (w.readStats path, w)
  | .store path stat, w =>
    ((), { w with readStats := Function.update w.readStats path (some stat) })
  | .seek src position, w => (.ok { src with offset := position }, w)
  | .uniquePath marker base, w => (c.uniquePath w.dir marker base, w)
  | .create name, w => (.ok (), { w with dir := Function.update w.dir name (some []) })
  | .writeString name text, w => (.ok (), w.append name text)
  | .copy src name, w => (.ok (w.unread src), w.append name (w.unread src))
  | .sync _, w => (.ok (), w)
  | .post dt name, w => (postData c.agent.post c.agent.endpoint dt
      ((w.dir name).map fun content => ⟨name, content⟩) c.net, w)

def answer (order : RangeOrder) : (op : AppLogOp) → Tail.World → op.Reply × Tail.World
  | .tail op, w => c.answerTail op w
  | .zglob pattern, w => (c.zglob pattern, w)
  | .discoverOpenedLogFiles pid, w => (c.discovered pid, w)
  | .filepathGlob pattern, w => (c.filepathGlob pattern, w)
  | .captureRuntime pid, w => (c.gcPath pid, w)
  | .rangeOrder keys, w => (order keys, w)

def log (path : Path) : Option Bytes := (c.files path).map c.content

/-- The patterns that `uploadAppLogM3` runs with for a process. -/
def patterns (appLogs : List String) (pid : Pid) : List String :=
  match configuredAppLogs appLogs ((c.pids.lookup pid).getD "") with
  | [] => withoutGCLogs (c.filepathGlob (getGlobPatternFromGCPath (c.gcPath pid) pid)).1
      (c.discovered pid).1
  | chosen => chosen

def matching (pattern : String) : List Path :=
  match c.zglob pattern with
  | .ok paths => paths
  | .error _ => []

def logsOf (appLogs : List String) (pid : Pid) : List Path :=
  (c.patterns appLogs pid).flatMap c.matching

/-- The new bytes of each log, given what the logs held when they were met
last. -/
def pending (held : Path → Option Bytes) (path : Path) : Option Bytes :=
  match c.log path, held path with
  | some now, some old => if old.length < now.length then some (now.drop old.length) else none
  | _, _ => none

def meet (held : Path → Option Bytes) (path : Path) : Path → Option Bytes :=
  match c.log path with
  | some now => Function.update held path (some now)
  | none => held

def meetAll (held : Path → Option Bytes) (asked : List (Pid × Path)) : Path → Option Bytes :=
  asked.foldl (fun held r => c.meet held r.2) held

/-- The world of the cycle, with the read positions at the ends of what the logs
held. -/
structure Keeps (held : Path → Option Bytes) (w : Tail.World) : Prop where
  files : w.files = c.files
  content : w.content = c.content
  stats : ∀ path, w.readStats path = (held path).map fun old => ⟨path, old.length, old.length⟩
  grown : ∀ path old, held path = some old → ∃ now, c.log path = some now ∧ old <+: now

def noted (x : Pid × Path × Bytes) : Sent := ⟨appLogDt x.1 x.2.1, x.2.2⟩

variable {c}

theorem pending_meet (held : Path → Option Bytes) (path : Path) :
    c.pending (c.meet held path) = Function.update (c.pending held) path none := by
  funext other
  by_cases hpath : other = path
  · subst hpath
    rw [Function.update_self]
    cases hlog : c.log other with
    | none => simp [pending, hlog]
    | some now => simp [pending, meet, hlog]
  · rw [Function.update_of_ne hpath]
    cases hlog : c.log path with
    | none => simp [meet, hlog]
    | some now => simp [pending, meet, hlog, Function.update_of_ne hpath]

theorem pending_meetAll (held : Path → Option Bytes) (asked : List (Pid × Path)) :
    c.pending (c.meetAll held asked) = remaining (c.pending held) asked := by
  induction asked generalizing held with
  | nil => rfl
  | cons r asked ih =>
    change c.pending (c.meetAll (c.meet held r.2) asked) =
      remaining (Function.update (c.pending held) r.2 none) asked
    rw [ih, pending_meet]

theorem Keeps.meet {held : Path → Option Bytes} {w w' : Tail.World} {path : Path} {now : Bytes}
    (hw : c.Keeps held w) (hnow : c.log path = some now) (hfiles : w'.files = w.files)
    (hcontent : w'.content = w.content)
    (hstats : w'.readStats =
      Function.update w.readStats path (some ⟨path, now.length, now.length⟩)) :
    c.Keeps (c.meet held path) w' where
  files := hfiles.trans hw.files
  content := hcontent.trans hw.content
  stats other := by
    rw [hstats, AppLogCycle.meet, hnow]
    by_cases hpath : other = path
    · subst hpath
      simp
    · simp [Function.update_of_ne hpath, hw.stats]
  grown other old hold := by
    rw [AppLogCycle.meet, hnow] at hold
    by_cases hpath : other = path
    · subst hpath
      simp only [Function.update_self, Option.some.injEq] at hold
      exact ⟨now, hnow, by rw [hold]⟩
    · simp only [Function.update_of_ne hpath] at hold
      exact hw.grown other old hold

private theorem initReadStat_eq (path : Path) (size : Nat) :
    Tail.initReadStat path size = .act (.store path ⟨path, size, size⟩) fun _ =>
      .done (.ok ⟨"initialized read position for " ++ path.quote, true⟩) := rfl

private theorem copyAndPost_eq (path : Path) (pid : Pid) (size : Nat) (src : Handle)
    (dstPath : String) :
    Tail.copyAndPost Tail.appLog path pid size src dstPath = .act (.copy src dstPath) fun
      | .error err => .done (.error ⟨"failed to copy content from", path, err⟩)
      | .ok copied => .act (.store path ⟨path, size, src.offset + copied.length⟩) fun _ =>
        Tail.flushAndPost Tail.appLog path pid dstPath := rfl

private theorem flushAndPost_eq (path : Path) (pid : Pid) (dstPath : String) :
    Tail.flushAndPost Tail.appLog path pid dstPath = .act (.sync dstPath) fun
      | .error err => .done (.error ⟨"failed to sync destination file", dstPath, err⟩)
      | .ok () => .act (.post (appLogDt pid path) dstPath) fun reply =>
        .done (.ok ⟨Prod.fst reply, Prod.snd reply⟩) := rfl

private theorem posted_iff (dt name : String) (bytes : Bytes) :
    (postData c.agent.post c.agent.endpoint dt (some ⟨name, bytes⟩) c.net).2 = true ↔
      bytes ≠ [] := by
  constructor
  · intro hok
    obtain ⟨_, ⟨file, heq, hne⟩, _⟩ := (postCustomData_ok_iff _ _ _ _ _).mp hok
    cases heq
    exact hne
  · exact c.accepted dt ⟨name, bytes⟩

section Visit

variable {w : Tail.World} {path : Path} (pid : Pid)

private theorem capture_missing (hfile : w.files path = none) :
    (play c.answerTail (Tail.captureSingleAppLog path pid) w).2.2 = w ∧
      tailUploads (play c.answerTail (Tail.captureSingleAppLog path pid) w).1 = [] := by
  simp [Tail.captureSingleAppLog, play, answerTail, hfile, tailUploads, sentByTail]

private theorem capture_new {i : Inode} (hfile : w.files path = some i)
    (hstat : w.readStats path = none) :
    (play c.answerTail (Tail.captureSingleAppLog path pid) w).2.2 = { w with
        readStats := Function.update w.readStats path
          (some ⟨path, (w.content i).length, (w.content i).length⟩) } ∧
      tailUploads (play c.answerTail (Tail.captureSingleAppLog path pid) w).1 = [] := by
  simp [Tail.captureSingleAppLog, play, answerTail, hfile, tailUploads, sentByTail, hstat,
    initReadStat_eq]

/-- Whatever name the copy gets, it holds the bytes past the read position when
it is posted. -/
private theorem capture_again {i : Inode} {n : Nat} (hfile : w.files path = some i)
    (hstat : w.readStats path = some ⟨path, n, n⟩) (hle : n ≤ (w.content i).length) :
    (∃ dir, (play c.answerTail (Tail.captureSingleAppLog path pid) w).2.2 = { w with
        readStats := Function.update w.readStats path
          (some ⟨path, (w.content i).length, (w.content i).length⟩)
        dir := dir }) ∧
      tailUploads (play c.answerTail (Tail.captureSingleAppLog path pid) w).1 =
        if n < (w.content i).length then [⟨appLogDt pid path, (w.content i).drop n⟩] else [] := by
  have hkept : ¬ (w.content i).length < n := by omega
  constructor
  · have hend : n + ((w.content i).length - n) = (w.content i).length := by omega
    simp [Tail.captureSingleAppLog, play, answerTail, hfile, hstat, Tail.captureNew, Tail.seekStart,
      copyAndPost_eq, Tail.flushAndPost, hkept, Tail.World.append, Tail.World.unread, hend]
  · simp [Tail.captureSingleAppLog, play, answerTail, hfile, hstat, Tail.captureNew, Tail.seekStart,
      copyAndPost_eq, flushAndPost_eq, hkept, Tail.World.append, Tail.World.unread,
      tailUploads, sentByTail, posted_iff, List.filterMap_cons]
    by_cases hnew : n < (w.content i).length
    · simp only [if_pos hnew]
    · simp only [if_neg hnew]

end Visit

private theorem capture_visit {held : Path → Option Bytes} {w : Tail.World} (hw : c.Keeps held w)
    (path : Path) (pid : Pid) :
    tailUploads (play c.answerTail (Tail.captureSingleAppLog path pid) w).1 =
        (Lib.FirstServed.serve (c.pending held) [(pid, path)]).map noted ∧
      c.Keeps (c.meet held path) (play c.answerTail (Tail.captureSingleAppLog path pid) w).2.2 := by
  cases hfile : c.files path with
  | none =>
    have hlog : c.log path = none := by simp [log, hfile]
    obtain ⟨hworld, hsent⟩ := capture_missing (c := c) pid (hw.files ▸ hfile)
    rw [hsent, hworld]
    simp only [meet, hlog]
    exact ⟨by simp [Lib.FirstServed.serve, pending, hlog], hw⟩
  | some i =>
    have hlog : c.log path = some (w.content i) := by simp [log, hfile, hw.content]
    have hfile' : w.files path = some i := hw.files ▸ hfile
    cases hheld : held path with
    | none =>
      have hstat : w.readStats path = none := by simp [hw.stats, hheld]
      obtain ⟨hworld, hsent⟩ := capture_new (c := c) pid hfile' hstat
      rw [hsent, hworld]
      exact ⟨by simp [Lib.FirstServed.serve, pending, hlog, hheld], hw.meet hlog rfl rfl rfl⟩
    | some old =>
      have hstat : w.readStats path = some ⟨path, old.length, old.length⟩ := by
        simp [hw.stats, hheld]
      have hle : old.length ≤ (w.content i).length := by
        obtain ⟨now, hnow, hgrew⟩ := hw.grown path old hheld
        cases hlog.symm.trans hnow
        exact hgrew.length_le
      obtain ⟨⟨dir, hworld⟩, hsent⟩ := capture_again (c := c) pid hfile' hstat hle
      rw [hsent, hworld]
      refine ⟨?_, hw.meet hlog rfl rfl rfl⟩
      simp only [Lib.FirstServed.serve, pending, hlog, hheld]
      split
      · rfl
      · rfl

/-- On the host of the cycle the program makes the visits of `asked`: it sends
what they are served, and leaves every log of them held as it is. -/
def Visits (c : AppLogCycle) (order : RangeOrder) {α : Type} (p : AppLogProg α)
    (asked : List (Pid × Path)) : Prop :=
  ∀ held w, c.Keeps held w →
    uploads (play (c.answer order) p w).1 =
        (Lib.FirstServed.serve (c.pending held) asked).map noted ∧
      c.Keeps (c.meetAll held asked) (play (c.answer order) p w).2.2

variable {order : RangeOrder} {α β : Type}

theorem visits_done (a : α) : c.Visits order (.done a) [] := fun _ _ hw => ⟨rfl, hw⟩

theorem visits_bind {p : AppLogProg α} {k : α → AppLogProg β} {asked later : List (Pid × Path)}
    (hp : c.Visits order p asked) (hk : ∀ a, c.Visits order (k a) later) :
    c.Visits order (p >>= k) (asked ++ later) := by
  intro held w hw
  obtain ⟨hsent, hkept⟩ := hp held w hw
  obtain ⟨hsent', hkept'⟩ := hk (play (c.answer order) p w).2.1 _ _ hkept
  rw [play_bind]
  constructor
  · rw [uploads, List.filterMap_append]
    change uploads _ ++ uploads _ = _
    rw [hsent, hsent', pending_meetAll, serve_append, List.map_append]
  · rw [meetAll, List.foldl_append]
    exact hkept'

theorem visits_map {p : AppLogProg α} {f : α → β} {asked : List (Pid × Path)}
    (hp : c.Visits order p asked) : c.Visits order (p >>= fun a => .done (f a)) asked := by
  have hboth : c.Visits order (p >>= fun a => .done (f a)) (asked ++ []) :=
    visits_bind hp fun a => visits_done (f a)
  rwa [List.append_nil] at hboth

theorem visits_ask {op : AppLogOp} {k : op.Reply → AppLogProg β} {r : op.Reply}
    {asked : List (Pid × Path)} (hanswer : ∀ w, c.answer order op w = (r, w))
    (hsent : ∀ w, sentBy w op r = none) (hk : c.Visits order (k r) asked) :
    c.Visits order (.act op k) asked := by
  intro held w hw
  obtain ⟨hsent', hkept⟩ := hk held w hw
  simp only [play, hanswer, uploads, List.filterMap_cons, hsent]
  exact ⟨hsent', hkept⟩

/-- A program of the tailer does on the host of the cycle what it does alone. -/
private theorem play_tail (order : RangeOrder) (p : Tail.TailProg α) (w : Tail.World) :
    uploads (play (c.answer order) (p.interpret fun op => askAppLog (.tail op)) w).1 =
        tailUploads (play c.answerTail p w).1 ∧
      (play (c.answer order) (p.interpret fun op => askAppLog (.tail op)) w).2 =
        (play c.answerTail p w).2 := by
  induction p generalizing w with
  | done a => exact ⟨rfl, rfl⟩
  | act op next ih =>
    obtain ⟨hsent, hrest⟩ := ih (c.answerTail op w).1 (c.answerTail op w).2
    simp only [Prog.interpret, askAppLog_bind, play, answer, uploads, tailUploads,
      List.filterMap_cons, sentBy] at hsent ⊢
    rw [hsent]
    exact ⟨rfl, hrest⟩

theorem visits_captureMatch (path : Path) (pid : Pid) :
    c.Visits order (AppLogM3.captureMatch path pid) [(pid, path)] := by
  have hcall : c.Visits order ((Tail.captureSingleAppLog path pid).interpret fun op =>
      askAppLog (.tail op)) [(pid, path)] := by
    intro held w hw
    obtain ⟨hsent, hrest⟩ := play_tail (c := c) order (Tail.captureSingleAppLog path pid) w
    rw [hsent, hrest]
    exact capture_visit hw path pid
  rw [← List.append_nil [(pid, path)]]
  apply visits_bind hcall
  intro result
  cases result with
  | ok result => exact visits_done _
  | error err => exact visits_done _

theorem visits_captureMatches (pid : Pid) (paths : List Path) :
    c.Visits order (AppLogM3.captureMatches pid paths) (paths.map fun path => (pid, path)) := by
  induction paths with
  | nil => exact visits_done _
  | cons path rest ih => exact visits_bind (visits_captureMatch path pid) fun _ => visits_map ih

theorem visits_capturePattern (pid : Pid) (pattern : String) :
    c.Visits order (AppLogM3.capturePattern pid pattern)
      ((c.matching pattern).map fun path => (pid, path)) := by
  apply visits_ask (fun _ => rfl) (fun _ => rfl)
  rw [matching]
  cases c.zglob pattern with
  | error err => exact visits_done _
  | ok paths => exact visits_captureMatches pid paths

theorem visits_capturePatterns (pid : Pid) (patterns : List String) :
    c.Visits order (AppLogM3.capturePatterns pid patterns)
      ((patterns.flatMap c.matching).map fun path => (pid, path)) := by
  induction patterns with
  | nil => exact visits_done _
  | cons pattern rest ih =>
    rw [List.flatMap_cons, List.map_append]
    exact visits_bind (visits_capturePattern pid pattern) fun _ => visits_map ih

/-- `SetPaths` with a single process leaves `Run` one order. -/
theorem visits_run (pid : Pid) (patterns : List String) :
    c.Visits order (AppLogM3.run (onePid pid patterns))
      ((patterns.flatMap c.matching).map fun path => (pid, path)) := by
  rw [AppLogM3.run, askAppLog_bind]
  apply visits_ask (fun _ => rfl) (fun _ => rfl)
  have horder : (order (onePid pid patterns).keys).1 = [pid] :=
    List.perm_singleton.mp (order [pid]).2
  have hpatterns : ((onePid pid patterns).lookup pid).getD [] = patterns := by
    have hlookup : (onePid pid patterns).lookup pid = some patterns :=
      List.dlookup_cons_eq ([] : List (Σ _ : Pid, List String)) pid patterns
    rw [hlookup, Option.getD_some]
  rw [horder]
  apply visits_map
  rw [AppLogM3.capturePids, hpatterns]
  exact visits_map (visits_capturePatterns pid patterns)

theorem visits_uploadAppLogM3 (appLogs : List String) (pid : Pid) :
    c.Visits order
      (uploadAppLogM3 appLogs pid ((c.pids.lookup pid).getD "") (c.gcPath pid))
      ((c.logsOf appLogs pid).map fun path => (pid, path)) := by
  rw [uploadAppLogM3, logsOf, patterns]
  cases configuredAppLogs appLogs ((c.pids.lookup pid).getD "") with
  | nil =>
    apply visits_ask (fun _ => rfl) (fun _ => rfl)
    apply visits_ask (fun _ => rfl) (fun _ => rfl)
    exact visits_run pid _
  | cons chosen more => exact visits_run pid _

theorem visits_captureAppLogsOf (appLogs : List String) (pids : List Pid) :
    c.Visits order (captureAppLogsOf appLogs c.pids pids) (requests (c.logsOf appLogs) pids) := by
  induction pids with
  | nil => exact visits_done _
  | cons pid rest ih =>
    rw [captureAppLogsOf, askAppLog_bind]
    apply visits_ask (fun _ => rfl) (fun _ => rfl)
    exact visits_bind (visits_uploadAppLogM3 appLogs pid) fun _ => ih

theorem visits_captureAppLogs (appLogs : List String) :
    c.Visits order (captureAppLogs appLogs c.pids)
      (requests (c.logsOf appLogs) (order c.pids.keys).1) := by
  apply visits_ask (fun _ => rfl) (fun _ => rfl)
  exact visits_captureAppLogsOf appLogs _

/-- The world a cycle starts in: the read positions and the capture directory of
`w`, and the logs as they are by then. -/
def enter (c : AppLogCycle) (w : Tail.World) : Tail.World :=
  { w with files := c.files, content := c.content }

/-- From one cycle to the next no log is removed and each only grows. -/
def Appended (c c' : AppLogCycle) : Prop :=
  ∀ path old, c.log path = some old → ∃ now, c'.log path = some now ∧ old <+: now

def Meets (c : AppLogCycle) (appLogs : List String) (path : Path) : Prop :=
  ∃ pid ∈ c.pids.keys, path ∈ c.logsOf appLogs pid

instance (c : AppLogCycle) (appLogs : List String) (path : Path) :
    Decidable (c.Meets appLogs path) :=
  inferInstanceAs (Decidable (∃ pid ∈ c.pids.keys, path ∈ c.logsOf appLogs pid))

end AppLogCycle

/-- The cycles of an agent over logs that are appended to. -/
structure AppLogHistory where
  cycles : List AppLogCycle
  appended : cycles.IsChain AppLogCycle.Appended

/-- What a log held when one of the cycles tailed it last. -/
def lastHeld (appLogs : List String) (cycles : List AppLogCycle) (path : Path) : Option Bytes :=
  cycles.reverse.findSome? fun c => if c.Meets appLogs path then c.log path else none

/-- The uploads of each cycle, from a world with the read positions kept so far. -/
def uploadsFrom (appLogs : List String) : (Nat → RangeOrder) → List AppLogCycle → Tail.World →
    List (List Sent)
  | _, [], _ => []
  | orders, c :: rest, w =>
    let out := play (c.answer (orders 0)) (captureAppLogs appLogs c.pids) (c.enter w)
    uploads out.1 :: uploadsFrom appLogs (fun n => orders (n + 1)) rest out.2.2

/-- `NewAppLogM3`: no read positions yet. -/
def newAppLogM3 : Tail.World := ⟨fun _ => none, fun _ => [], fun _ => none, fun _ => none⟩

namespace AppLogHistory

variable (h : AppLogHistory) (appLogs : List String)

/-- What the server gets in each cycle, if the map ranges of the `n`-th one go by
`orders n`. -/
def sent (orders : Nat → RangeOrder) : List (List Sent) :=
  uploadsFrom appLogs orders h.cycles newAppLogM3

/-- Every process that has the log in every cycle is sent, in each cycle after
the first that finds it, what was appended to it since the cycle before. -/
def SendsAll (sent : List (List Sent)) : Prop :=
  ∀ pid path, (∀ c ∈ h.cycles, pid ∈ c.pids.keys ∧ path ∈ c.logsOf appLogs pid) →
    ∀ n c c', h.cycles[n]? = some c → h.cycles[n + 1]? = some c' →
      ∀ old more, c.log path = some old → c'.log path = some (old ++ more) → more ≠ [] →
        ∃ uploads, sent[n + 1]? = some uploads ∧ ⟨appLogDt pid path, more⟩ ∈ uploads

/-- Each cycle makes the same uploads in both, in whatever order. This is meant for two
runs that differ in the order of their map ranges alone. -/
def SameUploads (sent sent' : List (List Sent)) : Prop :=
  ∀ (n : Nat) (uploads uploads' : List Sent), sent[n]? = some uploads →
    sent'[n]? = some uploads' → uploads.Perm uploads'

/-- A log that two processes of a cycle share holds what it held when a cycle
before tailed it last, if one did. -/
def SharedLogsIdle : Prop :=
  ∀ n c, h.cycles[n]? = some c → ∀ pid ∈ c.pids.keys, ∀ pid' ∈ c.pids.keys, pid ≠ pid' →
    ∀ path ∈ c.logsOf appLogs pid, path ∈ c.logsOf appLogs pid' →
      ∀ old, lastHeld appLogs (h.cycles.take n) path = some old → c.log path = some old

end AppLogHistory

namespace AppLogCycle
variable {c : AppLogCycle} {appLogs : List String} {order : RangeOrder}

private theorem meetAll_eq (held : Path → Option Bytes) (asked : List (Pid × Path)) (path : Path) :
    c.meetAll held asked path =
      if path ∈ asked.map Prod.snd then (c.log path).or (held path) else held path := by
  induction asked generalizing held with
  | nil => rfl
  | cons r asked ih =>
    change c.meetAll (c.meet held r.2) asked path = _
    rw [ih, List.map_cons]
    simp only [List.mem_cons]
    by_cases hpath : path = r.2
    · subst hpath
      cases hlog : c.log r.2 with
      | none => simp [meet, hlog]
      | some now => simp [meet, hlog]
    · have hsame : c.meet held r.2 path = held path := by
        cases hlog : c.log r.2 with
        | none => simp [meet, hlog]
        | some now => simp [meet, hlog, Function.update_of_ne hpath]
      simp only [hsame, hpath, false_or]

def served (c : AppLogCycle) (appLogs : List String) (before : List AppLogCycle)
    (order : RangeOrder) : List Sent :=
  (Lib.FirstServed.serve (c.pending (lastHeld appLogs before))
    (requests (c.logsOf appLogs) (order c.pids.keys).1)).map noted

private theorem lastHeld_concat (before : List AppLogCycle) (order : RangeOrder) :
    lastHeld appLogs (before ++ [c]) = c.meetAll (lastHeld appLogs before)
      (requests (c.logsOf appLogs) (order c.pids.keys).1) := by
  funext path
  have hmeets : path ∈ (requests (c.logsOf appLogs) (order c.pids.keys).1).map Prod.snd ↔
      c.Meets appLogs path := by
    have hperm := (order c.pids.keys).2
    simp [requests, Meets, hperm.mem_iff]
  rw [meetAll_eq, lastHeld, List.reverse_concat, List.findSome?_cons]
  by_cases hmet : c.Meets appLogs path
  · rw [if_pos hmet, if_pos (hmeets.mpr hmet)]
    cases c.log path with
    | none => rfl
    | some now => rfl
  · rw [if_neg hmet, if_neg fun hmem => hmet (hmeets.mp hmem)]
    rfl

/-- For logs that have grown or stayed, nothing is new exactly in those that hold
what they held. -/
private theorem pending_eq_none_iff {held : Path → Option Bytes}
    (hgrown : ∀ path old, held path = some old → ∃ now, c.log path = some now ∧ old <+: now)
    (path : Path) :
    c.pending held path = none ↔ ∀ old, held path = some old → c.log path = some old := by
  cases hheld : held path with
  | none => simp [pending, hheld]
  | some old =>
    obtain ⟨now, hnow, hgrew⟩ := hgrown path old hheld
    have hnew : old.length < now.length ↔ now ≠ old := by
      constructor
      · rintro hlt rfl
        omega
      · intro hne
        have hle := hgrew.length_le
        have hlen : old.length ≠ now.length := fun heq => hne (hgrew.eq_of_length heq).symm
        omega
    simp only [pending, hheld, hnow, hnew, ite_eq_right_iff, reduceCtorEq, imp_false,
      Option.some.injEq, forall_eq', Decidable.not_not]

theorem Keeps.grown_next {held : Path → Option Bytes} {w : Tail.World} (hw : c.Keeps held w)
    {c' : AppLogCycle} (hnext : c.Appended c') (path : Path) (old : Bytes)
    (hold : held path = some old) : ∃ now, c'.log path = some now ∧ old <+: now := by
  obtain ⟨mid, hmid, hgrew⟩ := hw.grown path old hold
  obtain ⟨now, hnow, hlater⟩ := hnext path mid hmid
  exact ⟨now, hnow, hgrew.trans hlater⟩

end AppLogCycle

private theorem eq_of_last_mark {mark : Char} {front front' rest rest' : List Char}
    (hrest : mark ∉ rest) (hrest' : mark ∉ rest')
    (heq : front ++ mark :: rest = front' ++ mark :: rest') : rest = rest' := by
  rcases List.append_eq_append_iff.mp heq with ⟨between, _, hmore⟩ | ⟨between, _, hmore⟩
  · cases between with
    | nil => exact (List.cons.inj hmore).2
    | cons first between =>
      rw [(List.cons.inj hmore).2] at hrest
      simp at hrest
  · cases between with
    | nil => exact (List.cons.inj hmore).2.symm
    | cons first between =>
      rw [(List.cons.inj hmore).2] at hrest'
      simp at hrest'

theorem appLogDt_pid {pid pid' : Pid} {path path' : Path}
    (heq : appLogDt pid path = appLogDt pid' path') : pid = pid' := by
  have htext (pid : Pid) (path : Path) : ∃ front,
      (appLogDt pid path).toList = front ++ '=' :: (toString pid).toList := by
    refine ⟨(Tail.appLog.dt ++ "&logName=" ++ filepathBase path ++ "&pid").toList, ?_⟩
    simp [appLogDt, String.toList_append]
  obtain ⟨front, hfront⟩ := htext pid path
  obtain ⟨front', hfront'⟩ := htext pid' path'
  rw [heq, hfront'] at hfront
  have hnumeral := eq_of_last_mark (not_mem_toString_int (by decide) pid')
    (not_mem_toString_int (by decide) pid) hfront
  exact (toString_int_injective (String.toList_injective hnumeral)).symm

open AppLogCycle

/-- The uploads of the `n`-th cycle are what its visits are served, given the
cycles before it; and the logs have grown since these. -/
private theorem uploadsFrom_eq (appLogs : List String) (cycles before : List AppLogCycle)
    (orders : Nat → RangeOrder) (w : Tail.World) (hchain : cycles.IsChain AppLogCycle.Appended)
    (hstats : ∀ path, w.readStats path =
      (lastHeld appLogs before path).map fun old => ⟨path, old.length, old.length⟩)
    (hgrown : ∀ c ∈ cycles.head?, ∀ path old, lastHeld appLogs before path = some old →
      ∃ now, c.log path = some now ∧ old <+: now) (n : Nat) :
    (uploadsFrom appLogs orders cycles w)[n]? =
        cycles[n]?.map (fun c => c.served appLogs (before ++ cycles.take n) (orders n)) ∧
      ∀ c, cycles[n]? = some c → ∀ path old,
        lastHeld appLogs (before ++ cycles.take n) path = some old →
          ∃ now, c.log path = some now ∧ old <+: now := by
  induction cycles generalizing before orders w n with
  | nil =>
    refine ⟨rfl, ?_⟩
    intro c hc
    cases hc
  | cons c rest ih =>
    have hkeeps : c.Keeps (lastHeld appLogs before) (c.enter w) :=
      ⟨rfl, rfl, hstats, hgrown c rfl⟩
    have hvisits : c.Visits (orders 0) (captureAppLogs appLogs c.pids) _ :=
      visits_captureAppLogs appLogs
    obtain ⟨hsent, hkept⟩ := hvisits _ _ hkeeps
    rw [← lastHeld_concat before (orders 0)] at hkept
    cases n with
    | zero =>
      constructor
      · simp [uploadsFrom, hsent, served]
      · intro c' hc'
        cases hc'
        simpa using hkeeps.grown
    | succ n =>
      have hnext : ∀ c' ∈ rest.head?, ∀ path old,
          lastHeld appLogs (before ++ [c]) path = some old →
            ∃ now, c'.log path = some now ∧ old <+: now := by
        intro c' hc'
        cases rest with
        | nil => cases hc'
        | cons _ rest =>
          cases hc'
          exact hkept.grown_next (List.isChain_cons_cons.mp hchain).1
      have hrest := ih (before ++ [c]) (fun n => orders (n + 1)) _ hchain.tail hkept.stats hnext n
      rw [List.append_assoc] at hrest
      exact hrest

namespace AppLogHistory

variable (h : AppLogHistory) (appLogs : List String)

theorem sent_eq (orders : Nat → RangeOrder) (n : Nat) :
    (h.sent appLogs orders)[n]? =
      h.cycles[n]?.map fun c => c.served appLogs (h.cycles.take n) (orders n) := by
  have hrun := uploadsFrom_eq appLogs h.cycles [] orders newAppLogM3 h.appended
    (fun _ => rfl) (fun _ _ _ _ hold => by cases hold) n
  exact hrun.1

theorem grown {n : Nat} {c : AppLogCycle} (hc : h.cycles[n]? = some c) (path : Path) (old : Bytes)
    (hold : lastHeld appLogs (h.cycles.take n) path = some old) :
    ∃ now, c.log path = some now ∧ old <+: now := by
  have hrun := uploadsFrom_eq appLogs h.cycles [] (fun _ keys => ⟨keys, .refl keys⟩) newAppLogM3
    h.appended (fun _ => rfl) (fun _ _ _ _ hold => by cases hold) n
  exact hrun.2 c hc path old hold

/-- The processes of the `n`-th cycle share nothing new. -/
theorem sharedLogsIdle_iff :
    h.SharedLogsIdle appLogs ↔ ∀ (n : Nat) (c : AppLogCycle), h.cycles[n]? = some c →
      Unshared (c.pending (lastHeld appLogs (h.cycles.take n))) (c.logsOf appLogs) c.pids.keys := by
  constructor
  · intro hidle n c hc pid hpid pid' hpid' hne path hpath hpath'
    rw [pending_eq_none_iff (h.grown appLogs hc)]
    exact hidle n c hc pid hpid pid' hpid' hne path hpath hpath'
  · intro hunshared n c hc pid hpid pid' hpid' hne path hpath hpath'
    rw [← pending_eq_none_iff (h.grown appLogs hc)]
    exact hunshared n c hc pid hpid pid' hpid' hne path hpath hpath'

/-- A range that visits the keys of one map in the given order. -/
private def rangeBy {keys order : List Pid} (hperm : order.Perm keys) : RangeOrder := fun keys' =>
  if hkeys : keys' = keys then ⟨order, hkeys ▸ hperm⟩ else ⟨keys', .refl keys'⟩

private theorem rangeBy_keys {keys order : List Pid} (hperm : order.Perm keys) :
    (rangeBy hperm keys).1 = order := by
  rw [rangeBy, dif_pos rfl]

theorem sameUploads_iff :
    (∀ orders orders', SameUploads (h.sent appLogs orders) (h.sent appLogs orders')) ↔
      h.SharedLogsIdle appLogs := by
  have hnoted : ∀ x y : Pid × Path × Bytes, noted x = noted y → x.1 = y.1 := by
    intro x y heq
    exact appLogDt_pid (congrArg Sent.dt heq)
  rw [sharedLogsIdle_iff]
  constructor
  · intro hsame n c hc
    rw [← serve_perm_iff _ _ hnoted (AList.keys_nodup c.pids)]
    intro order order' horder horder'
    have hpair := hsame (fun _ => rangeBy horder) (fun _ => rangeBy horder') n
      (c.served appLogs (h.cycles.take n) (rangeBy horder))
      (c.served appLogs (h.cycles.take n) (rangeBy horder'))
      (by rw [sent_eq, hc]; rfl) (by rw [sent_eq, hc]; rfl)
    rwa [served, served, rangeBy_keys, rangeBy_keys] at hpair
  · intro hunshared orders orders' n sent sent' hsent hsent'
    rw [sent_eq] at hsent hsent'
    cases hc : h.cycles[n]? with
    | none =>
      rw [hc] at hsent
      cases hsent
    | some c =>
      rw [hc] at hsent hsent'
      cases hsent
      cases hsent'
      have hperm := (serve_perm_iff _ _ hnoted (AList.keys_nodup c.pids)).mpr (hunshared n c hc)
      exact hperm _ _ (orders n c.pids.keys).2 (orders' n c.pids.keys).2

private theorem lastHeld_take_succ {n : Nat} {c : AppLogCycle} {path : Path} {old : Bytes}
    (hc : h.cycles[n]? = some c) (hmeets : c.Meets appLogs path) (hold : c.log path = some old) :
    lastHeld appLogs (h.cycles.take (n + 1)) path = some old := by
  obtain ⟨hn, rfl⟩ := List.getElem?_eq_some_iff.mp hc
  rw [List.take_succ_eq_append_getElem hn, lastHeld, List.reverse_concat, List.findSome?_cons,
    if_pos hmeets, hold]

theorem sendsAll_of_idle (hidle : h.SharedLogsIdle appLogs) (orders : Nat → RangeOrder) :
    h.SendsAll appLogs (h.sent appLogs orders) := by
  intro pid path hlog n c c' hc hc' old more hold hnow hmore
  obtain ⟨hpid, hpath⟩ := hlog c (List.mem_of_getElem? hc)
  obtain ⟨hpid', hpath'⟩ := hlog c' (List.mem_of_getElem? hc')
  have hheld := h.lastHeld_take_succ appLogs hc ⟨pid, hpid, hpath⟩ hold
  have hpending : c'.pending (lastHeld appLogs (h.cycles.take (n + 1))) path = some more := by
    have hlt : old.length < (old ++ more).length := by
      have hpos := List.length_pos_of_ne_nil hmore
      rw [List.length_append]
      omega
    simp only [pending, hnow, hheld, if_pos hlt, List.drop_left]
  refine ⟨_, by rw [sent_eq, hc']; rfl, List.mem_map.mpr ⟨(pid, path, more), ?_, rfl⟩⟩
  have hperm := (orders (n + 1) c'.pids.keys).2
  apply mem_serve_of_only hpending
  · exact mem_requests.mpr ⟨hperm.mem_iff.mpr hpid', hpath'⟩
  · rintro ⟨other, _⟩ hr rfl
    obtain ⟨hother, hpath''⟩ := mem_requests.mp hr
    by_contra hne
    have hnone := (h.sharedLogsIdle_iff appLogs).mp hidle _ _ hc' other (hperm.mem_iff.mp hother)
      pid hpid' hne _ hpath'' hpath'
    rw [hpending] at hnone
    cases hnone

/-- Whatever the order of the processes in each cycle: every process is sent all
that is appended to a log it has in every cycle, and the uploads do not depend
on the order, exactly when no cycle has two processes share a log that has
grown since it was tailed last. -/
theorem app_logs_per_process_iff :
    ((∀ orders, h.SendsAll appLogs (h.sent appLogs orders)) ∧
      ∀ orders orders', SameUploads (h.sent appLogs orders) (h.sent appLogs orders')) ↔
      h.SharedLogsIdle appLogs := by
  constructor
  · rintro ⟨_, hsame⟩
    exact (h.sameUploads_iff appLogs).mp hsame
  · intro hidle
    exact ⟨h.sendsAll_of_idle appLogs hidle, (h.sameUploads_iff appLogs).mpr hidle⟩

end AppLogHistory

def sharedLogCycle (content : Bytes) : AppLogCycle where
  pids := (AList.insert 1 "shop" ∅).insert 2 "store"
  files path := if path = "app.log" then some 0 else none
  content _ := content
  zglob _ := .ok ["app.log"]
  discovered _ := ([], none)
  filepathGlob _ := ([], none)
  gcPath _ := ""
  uniquePath _ _ _ := "1.appLogs.app.log"
  agent := ⟨⟨false, ""⟩, "https://yc"⟩
  net := ⟨.ok (), .ok (), .ok (), .ok (), .ok 200, .ok ""⟩
  accepted dt file hfile := by
    rw [postData, postCustomData_ok_iff]
    exact ⟨rfl, ⟨file, rfl, hfile⟩, rfl, fun _ => rfl, rfl, rfl, rfl, "", rfl⟩

def sharedLog : AppLogHistory where
  cycles := [sharedLogCycle [97], sharedLogCycle [97, 98]]
  appended := by
    rw [List.isChain_pair]
    intro path old hold
    simp only [AppLogCycle.log, sharedLogCycle] at hold ⊢
    split at hold
    · next hpath =>
        cases hold
        exact ⟨[97, 98], by simp [hpath], by decide⟩
    · cases hold

/-- The process visited first is sent the byte, and the other one nothing. -/
theorem shared_log_sent_to_first_visited :
    ∃ orders orders' : Nat → RangeOrder,
      sharedLog.sent ["app.log"] orders = [[], [⟨appLogDt 2 "app.log", [98]⟩]] ∧
      sharedLog.sent ["app.log"] orders' = [[], [⟨appLogDt 1 "app.log", [98]⟩]] ∧
      ¬ sharedLog.SendsAll ["app.log"] (sharedLog.sent ["app.log"] orders) ∧
      ¬ AppLogHistory.SameUploads (sharedLog.sent ["app.log"] orders)
        (sharedLog.sent ["app.log"] orders') := by
  have hsent : sharedLog.sent ["app.log"] (fun _ keys => ⟨keys, .refl keys⟩) =
      [[], [⟨appLogDt 2 "app.log", [98]⟩]] := rfl
  have hsent' : sharedLog.sent ["app.log"] (fun _ keys => ⟨keys.reverse, keys.reverse_perm⟩) =
      [[], [⟨appLogDt 1 "app.log", [98]⟩]] := rfl
  have hother : appLogDt 1 "app.log" ≠ appLogDt 2 "app.log" := by
    intro heq
    exact absurd (appLogDt_pid heq) (by decide)
  refine ⟨_, _, hsent, hsent', ?_, ?_⟩
  · intro hall
    have hevery : ∀ c ∈ sharedLog.cycles,
        1 ∈ c.pids.keys ∧ "app.log" ∈ c.logsOf ["app.log"] 1 := by
      intro c hc
      simp only [sharedLog, List.mem_cons, List.not_mem_nil, or_false] at hc
      rcases hc with rfl | rfl
      · exact ⟨.tail _ (.head _), .head _⟩
      · exact ⟨.tail _ (.head _), .head _⟩
    obtain ⟨uploads, huploads, hmem⟩ := hall 1 "app.log" hevery 0 _ _ rfl rfl [97] [98] rfl rfl
      (by decide)
    rw [hsent] at huploads
    cases huploads
    rw [List.mem_singleton] at hmem
    exact hother (congrArg Sent.dt hmem)
  · intro hsame
    have hperm := hsame 1 _ _ (by rw [hsent]; rfl) (by rw [hsent']; rfl)
    have hmem := hperm.mem_iff.mp (List.mem_singleton.mpr rfl)
    rw [List.mem_singleton] at hmem
    exact hother (congrArg Sent.dt hmem).symm

end YcAgent.Agent
