import YcAgent.Capture.Post
import YcAgent.Go.Filepath
import YcAgent.Lib.Program

/-!
The incremental capture of application and access logs in M3 mode:
`CaptureSingleAppLog` and `CaptureSingleAccessLog`, as programs over the file
operations they make. Between two operations the writer of the log and the
rest of the agent may change everything except the read position kept for the
log. `Contract` records what a call has done at any moment of it.
-/

namespace YcAgent.Capture

open Go Lib.Program

abbrev Inode := Nat

/-- `appLogM3ReadStat` and `accessLogM3ReadStat`. -/
structure ReadStat where
  filePath : Path
  fileSize : Nat
  readPosition : Nat
  deriving DecidableEq, Repr

/-- An open log: the file it was opened on and the offset of the next read. -/
structure Handle where
  inode : Inode
  offset : Nat
  deriving DecidableEq, Repr

/-- `fmt.Errorf(what + " %q: %w", path, cause)`. -/
structure CaptureError where
  what : String
  path : Path
  cause : IOError
  deriving DecidableEq, Repr

namespace Tail

inductive Op where
  | stat (path : Path)
  | openFile (path : Path)
  | lookup (path : Path)
  | store (path : Path) (stat : ReadStat)
  | seek (src : Handle) (position : Nat)
  | uniquePath (marker base : String)
  | create (name : String)
  | writeString (name : String) (text : Bytes)
  | copy (src : Handle) (name : String)
  | sync (name : String)
  | post (dt name : String)

/-- The reply to `copy` is the bytes moved; the programs use their number. -/
def Op.Reply : Op → Type
  | .stat _ => Except IOError Nat
  | .openFile _ => Except IOError Handle
  | .lookup _ => Option ReadStat
  | .store _ _ => Unit
  | .seek _ _ => Except IOError Handle
  | .uniquePath _ _ => String
  | .create _ => Except IOError Unit
  | .writeString _ _ => Except IOError Unit
  | .copy _ _ => Except IOError Bytes
  | .sync _ => Except IOError Unit
  | .post _ _ => String × Bool

abbrev TailProg := Prog Op Op.Reply

def ask (op : Op) : TailProg op.Reply := Prog.perform op

@[simp] theorem ask_bind {β : Type} (op : Op) (k : op.Reply → TailProg β) :
    (ask op >>= k) = Prog.act op k := rfl

/-- What the two tailers do differently once a log has a read position. -/
structure LogKind where
  name : String
  marker : String
  dt : String
  headers : List Bytes

def appLog : LogKind where
  name := "applog"
  marker := "appLogs"
  dt := "applog"
  headers := []

def accessLog (format source : String) : LogKind where
  name := "accesslog"
  marker := "accessLogs"
  dt := "accessLog"
  headers := utf8 (format ++ "\n") ::
    if source ≠ "" then [utf8 ("accessLogSource: " ++ source ++ "\n")] else []

/-- The first encounter: only the size is remembered. -/
def initReadStat (filePath : Path) (size : Nat) : TailProg (Except CaptureError Result) := do
  ask (.store filePath ⟨filePath, size, size⟩)
  return .ok ⟨"initialized read position for " ++ filePath.quote, true⟩

/-- The truncation test and the seek to where the next read starts. -/
def seekStart (kind : LogKind) (filePath : Path) (size : Nat) (readStat : ReadStat)
    (src : Handle) : TailProg (Except CaptureError Handle) := do
  if size < readStat.fileSize then
    return .ok src
  else
    match ← ask (.seek src readStat.readPosition) with
    | .ok src => return .ok src
    | .error _ =>
      match ← ask (.seek src 0) with
      | .ok src => return .ok src
      | .error err => return .error ⟨"failed to seek " ++ kind.name, filePath, err⟩

/-- The headers are written without a look at the errors. -/
def writeHeaders (name : String) : List Bytes → TailProg Unit
  | [] => return ()
  | header :: rest => do
    let _ ← ask (.writeString name header)
    writeHeaders name rest

def flushAndPost (kind : LogKind) (filePath : Path) (pid : Int) (dstPath : String) :
    TailProg (Except CaptureError Result) := do
  match ← ask (.sync dstPath) with
  | .error err => return .error ⟨"failed to sync destination file", dstPath, err⟩
  | .ok () =>
    let (msg, ok) ← ask (.post
      (kind.dt ++ "&logName=" ++ filepathBase filePath ++ "&pid=" ++ toString pid) dstPath)
    return .ok ⟨msg, ok⟩

/-- From the created destination on: copy to the end of the log, remember the
new position, flush and upload. -/
def copyAndPost (kind : LogKind) (filePath : Path) (pid : Int) (size : Nat) (src : Handle)
    (dstPath : String) : TailProg (Except CaptureError Result) := do
  writeHeaders dstPath kind.headers
  match ← ask (.copy src dstPath) with
  | .error err => return .error ⟨"failed to copy content from", filePath, err⟩
  | .ok copied =>
    ask (.store filePath ⟨filePath, size, src.offset + copied.length⟩)
    flushAndPost kind filePath pid dstPath

def captureNew (kind : LogKind) (filePath : Path) (pid : Int) (size : Nat)
    (readStat : ReadStat) (src : Handle) : TailProg (Except CaptureError Result) := do
  match ← seekStart kind filePath size readStat src with
  | .error err => return .error err
  | .ok src =>
    let dstPath ← ask (.uniquePath kind.marker (filepathBase filePath))
    match ← ask (.create dstPath) with
    | .error err => return .error ⟨"failed to create destination file", dstPath, err⟩
    | .ok () => copyAndPost kind filePath pid size src dstPath

def captureSingleAppLog (filePath : Path) (pid : Int) :
    TailProg (Except CaptureError Result) := do
  match ← ask (.stat filePath) with
  | .error err => return .error ⟨"failed to stat applog", filePath, err⟩
  | .ok size =>
    match ← ask (.openFile filePath) with
    | .error err => return .error ⟨"failed to open applog", filePath, err⟩
    | .ok src =>
      match ← ask (.lookup filePath) with
      | none => initReadStat filePath size
      | some readStat => captureNew appLog filePath pid size readStat src

/-- Unlike an application log, an access log met for the first time is not
opened. -/
def captureSingleAccessLog (filePath : Path) (pid : Int) (format source : String) :
    TailProg (Except CaptureError Result) := do
  match ← ask (.stat filePath) with
  | .error err => return .error ⟨"failed to stat accesslog", filePath, err⟩
  | .ok size =>
    match ← ask (.lookup filePath) with
    | none => initReadStat filePath size
    | some readStat =>
      match ← ask (.openFile filePath) with
      | .error err => return .error ⟨"failed to open accesslog", filePath, err⟩
      | .ok src => captureNew (accessLog format source) filePath pid size readStat src

inductive Call where
  | app (filePath : Path) (pid : Int)
  | access (filePath : Path) (pid : Int) (format source : String)

def Call.filePath : Call → Path
  | .app filePath _ => filePath
  | .access filePath _ _ _ => filePath

def Call.body : Call → TailProg (Except CaptureError Result)
  | .app filePath pid => captureSingleAppLog filePath pid
  | .access filePath pid format source => captureSingleAccessLog filePath pid format source

/-- The files a path may lead to, the read positions, and the capture
directory. -/
structure World where
  files : Path → Option Inode
  content : Inode → Bytes
  readStats : Path → Option ReadStat
  dir : String → Option Bytes

def World.append (w : World) (name : String) (bytes : Bytes) : World :=
  { w with dir := Function.update w.dir name (some ((w.dir name).getD [] ++ bytes)) }

def World.unread (w : World) (src : Handle) : Bytes := (w.content src.inode).drop src.offset

/-- `generateUniqueLogPath` and `generateUniqueAccessLogPath`: the first
counter whose name is free. -/
def IsUniquePath (dir : String → Option Bytes) (marker base name : String) : Prop :=
  let path (counter : Nat) := toString counter ++ "." ++ marker ++ "." ++ base
  ∃ counter, name = path (counter + 1) ∧ dir name = none ∧
    ∀ earlier < counter, dir (path (earlier + 1)) ≠ none

structure Agent where
  post : PostConfig
  endpoint : String

/-- What each operation answers and does. Any of them may fail; a failed write
or copy may have written a part. -/
def Perform (agent : Agent) : (op : Op) → World → op.Reply → World → Prop
  | .stat path, w, .ok size, w' =>
    w' = w ∧ ∃ i, w.files path = some i ∧ size = (w.content i).length
  | .stat _, w, .error _, w' => w' = w
  | .openFile path, w, .ok src, w' => w' = w ∧ w.files path = some src.inode ∧ src.offset = 0
  | .openFile _, w, .error _, w' => w' = w
  | .lookup path, w, r, w' => w' = w ∧ r = w.readStats path
  | .store path stat, w, _, w' =>
    w' = { w with readStats := Function.update w.readStats path (some stat) }
  | .seek src position, w, .ok src', w' => w' = w ∧ src' = { src with offset := position }
  | .seek _ _, w, .error _, w' => w' = w
  | .uniquePath marker base, w, name, w' => w' = w ∧ IsUniquePath w.dir marker base name
  | .create name, w, .ok _, w' => w' = { w with dir := Function.update w.dir name (some []) }
  | .create _, w, .error _, w' => w' = w
  | .writeString name text, w, .ok _, w' => w' = w.append name text
  | .writeString name text, w, .error _, w' => ∃ n, w' = w.append name (text.take n)
  | .copy src name, w, .ok copied, w' =>
    copied = w.unread src ∧ w' = w.append name copied
  | .copy src name, w, .error _, w' => ∃ n, w' = w.append name ((w.unread src).take n)
  | .sync _, w, _, w' => w' = w
  | .post dt name, w, r, w' =>
    w' = w ∧ ∃ net, r = postData agent.post agent.endpoint dt
      ((w.dir name).map fun content => ⟨name, content⟩) net

/-- The operations when nothing fails and the first counter is free; uploads
are answered by `net`. -/
def faultless (agent : Agent) (net : PostReplies) : (op : Op) → World → Option (op.Reply × World)
  | .stat path, w => (w.files path).map fun i => (.ok (w.content i).length, w)
  | .openFile path, w => (w.files path).map fun i => (.ok ⟨i, 0⟩, w)
  | .lookup path, w => some (w.readStats path, w)
  | .store path stat, w =>
    some ((), { w with readStats := Function.update w.readStats path (some stat) })
  | .seek src position, w => some (.ok { src with offset := position }, w)
  | .uniquePath marker base, w =>
    let name := toString 1 ++ "." ++ marker ++ "." ++ base
    if w.dir name = none then some (name, w) else none
  | .create name, w => some (.ok (), { w with dir := Function.update w.dir name (some []) })
  | .writeString name text, w => some (.ok (), w.append name text)
  | .copy src name, w => some (.ok (w.unread src), w.append name (w.unread src))
  | .sync _, w => some (.ok (), w)
  | .post dt name, w => some (postData agent.post agent.endpoint dt
      ((w.dir name).map fun content => ⟨name, content⟩) net, w)

theorem faultless_perform {agent : Agent} {net : PostReplies} {op : Op} {w w' : World}
    {r : op.Reply} (h : faultless agent net op w = some (r, w')) : Perform agent op w r w' := by
  cases op with
  | stat path =>
    obtain ⟨i, hi, heq⟩ := Option.map_eq_some_iff.mp h
    cases heq
    exact ⟨rfl, i, hi, rfl⟩
  | openFile path =>
    obtain ⟨i, hi, heq⟩ := Option.map_eq_some_iff.mp h
    cases heq
    exact ⟨rfl, hi, rfl⟩
  | lookup path => cases h; exact ⟨rfl, rfl⟩
  | store path stat => cases h; rfl
  | seek src position => cases h; exact ⟨rfl, rfl⟩
  | uniquePath marker base =>
    simp only [faultless] at h
    split at h
    · next hfree =>
        cases h
        exact ⟨rfl, 0, rfl, hfree, by simp⟩
    · cases h
  | create name => cases h; rfl
  | writeString name text => cases h; rfl
  | copy src name => cases h; exact ⟨rfl, rfl⟩
  | sync name => cases h; rfl
  | post dt name => cases h; exact ⟨rfl, net, rfl⟩

end Tail

end YcAgent.Capture
