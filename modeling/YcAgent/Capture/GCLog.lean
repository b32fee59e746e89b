import YcAgent.Capture.Post
import YcAgent.Go.Filepath
import YcAgent.Go.Strings
import YcAgent.Lib.Ghost

/-!
`ProcessGCLogFile`: the search for the GC log of a process and its copying into
the output file. The path may hold placeholders, the log may be rotated, and
the process may live in a container. The function has a dozen exits; what
matters for its callers is which of them return a file, which an error and
which both.
-/

namespace YcAgent.Capture

open Go Lib.Program

/-- An error, and what `os.IsNotExist` says about it. -/
structure FsError where
  text : String
  notExist : Bool
  deriving DecidableEq, Repr

structure FileInfo where
  name : String
  modTime : Int
  deriving DecidableEq, Repr

/-- What is asked of the host: by `ProcessGCLogFile`, and at the end by its
callers. Sorting is asked for where only its first element is used and ties are
left open. A panic is never answered. -/
inductive GCOp where
  | glob (pattern : Path)
  | latestByName (files : List Path)
  | fileExists (path : Path)
  | lstat (path : Path)
  | latestByTime (infos : List FileInfo)
  | panic
  | create (path : Path)
  | openOut (path : Path)
  | openLog (path : Path)
  | ioCopy (path : Path)
  | dockerCopy (dst src : Path)
  | dockerLs (dockerID : String) (dir : Path)
  | openDir (dir : Path)
  | readdirnames (dir : Path)
  | jstat (out : Path) (pid : Int)
  | jattach (executable out : Path) (pid : Int)
  | copy2TempPath
  | startJstat (out : Path) (pid : Int)
  | startJattach (out : Path) (pid : Int)
  | wait
  | closeOut
  | removeOut (out : Path)
  | post (hasFile : Bool)
  | absPath (path : Path)
  | runGCCaptureCmd (pid : Int)
  | getDockerID (pid : Int)
  | getGCLogFile (pid : Int)

def GCOp.Reply : GCOp → Type
  | .glob _ => Except String (List Path)
  | .latestByName files =>
    { file : Path // file ∈ files ∧ ∀ other ∈ files, ¬ filepathBase file < filepathBase other }
  | .fileExists _ => Bool
  | .lstat _ => Option FileInfo
  | .latestByTime infos =>
    { info : FileInfo // info ∈ infos ∧ ∀ other ∈ infos, other.modTime ≤ info.modTime }
  | .panic => Empty
  | .create _ => Option FsError
  | .openOut _ => Option FsError
  | .openLog _ => Option FsError
  | .ioCopy _ => Option FsError
  | .dockerCopy _ _ => Option FsError
  | .dockerLs _ _ => Except FsError (List Bytes)
  | .openDir _ => Option FsError
  | .readdirnames _ => Except FsError (List Bytes)
  | .jstat _ _ => Option FsError
  | .jattach _ _ _ => Option FsError
  | .copy2TempPath => Except FsError Path
  | .startJstat _ _ => Option FsError
  | .startJattach _ _ => Option FsError
  | .wait => Option FsError
  | .closeOut => Option FsError
  | .removeOut _ => Option FsError
  | .post _ => Result
  | .absPath _ => Except FsError Path
  | .runGCCaptureCmd _ => Except FsError Path
  | .getDockerID _ => String
  | .getGCLogFile _ => Except FsError Path

abbrev GCProg := Prog GCOp GCOp.Reply

def askGC (op : GCOp) : GCProg op.Reply := .perform op

/-- What the function finds in its process. `findSubmatch` compiles a regular
expression with one group, and gives the match and the group in a text. -/
structure GCHost where
  linux : Bool
  tempDir : Path
  findSubmatch : String → Option (Bytes → Option (Bytes × Bytes))

def getGlobPatternFromGCPath (gcPath : Path) (pid : Int) : Path :=
  let pattern := replaceFirst gcPath "%pid" (toString pid)
  let pattern := replaceAll pattern "%seq" "???"
  let pattern := replaceAll pattern "%tick" "*"
  let pattern := replaceAll pattern "%uid" "*"
  let pattern := replaceAll pattern "%last" "*"
  -- `%p` becomes the pid, or `pid` and the pid
  let pattern := replaceFirst pattern "%p" ("*" ++ toString pid)
  let pattern := replaceAll pattern "%t" "????-??-??_??-??-??"
  let pattern := replaceAll pattern "%Y" "????"
  ["%y", "%m", "%d", "%H", "%M", "%S"].foldl (replaceAll · · "??") pattern

def getLatestFileFromGlobPattern (globPattern : Path) : GCProg (Except String Path) := do
  match ← askGC (.glob globPattern) with
  | .error err => return .error err
  | .ok [] => return .error s!"no file found from glob {globPattern}"
  | .ok (file :: files) => return .ok (← askGC (.latestByName (file :: files))).1

/-- The part of `ProcessGCLogFile` that resolves placeholders. -/
def resolvePlaceholders (gcPath : Path) (pid : Int) : GCProg Path := do
  if !gcPath.toList.contains '%' then return gcPath else
  let globPattern := getGlobPatternFromGCPath gcPath pid
  match ← getLatestFileFromGlobPattern globPattern with
  | .ok latestFile => return latestFile
  | .error _ =>
    -- some JVMs have rotated files only
    match ← getLatestFileFromGlobPattern (globPattern ++ ".*") with
    | .ok latestFile => return if gcPath = latestFile then gcPath else trimExt latestFile
    | .error _ => return gcPath

def lstatAll : List Path → GCProg (List (Option FileInfo))
  | [] => return []
  | path :: paths => do
    let info ← askGC (.lstat path)
    return info :: (← lstatAll paths)

/-- The sorting of the infos and what is made of the first of them. A file that
vanishes between the glob and its `Lstat` leaves a nil entry, which panics. -/
def latestOf (gcPath : Path) (infos : List (Option FileInfo)) : GCProg Path := do
  match infos.mapM id with
  | none => return (← askGC .panic).elim
  | some [] => return gcPath
  | some (info :: infos) =>
    return filepathJoin (filepathDir gcPath) (← askGC (.latestByTime (info :: infos))).1.name

def findLatestFileInRotatingLogFiles (gcPath : Path) : GCProg Path := do
  let globbed ← askGC (.glob (gcPath ++ ".*"))
  let exist : Bool ← askGC (.fileExists gcPath)
  match globbed with
  | .error _ => return gcPath
  | .ok globbed =>
    let infos ← lstatAll (if exist then globbed ++ [gcPath] else globbed)
    latestOf gcPath infos

def inProcRoot (pid : Int) (file : Path) : Path :=
  filepathJoin s!"/proc/{pid}/root" file

def copyFile (h : GCHost) (file : Path) (pid : Int) : GCProg (Option FsError) := do
  match ← askGC (.openLog file) with
  | none => askGC (.ioCopy file)
  | some err =>
    if !h.linux then return some err else
    match ← askGC (.openLog (inProcRoot pid file)) with
    | none => askGC (.ioCopy (inProcRoot pid file))
    | some err => return some err

/-- The arguments of `ProcessGCLogFile` after the path. -/
structure GCTarget where
  out : Path
  dockerID : String
  pid : Int

/-- The pair of results: whether the file is non-nil, and the error. -/
structure GCOutcome where
  file : Bool
  err : Option FsError
  deriving DecidableEq, Repr

def listLogs (t : GCTarget) (dir : Path) : GCProg (Except FsError (List Bytes)) := do
  if t.dockerID ≠ "" then
    match ← askGC (.dockerLs t.dockerID dir) with
    | .error err => return .error err
    | .ok lines => return .ok (lines.map trimSpace)
  else
    match ← askGC (.openDir dir) with
    | some err => return .error err
    | none =>
      match ← askGC (.readdirnames dir) with
      | .error err => return .error err
      | .ok names => return .ok names

/-- The loop over the names: the last current log, and the indexes of the
others. -/
def sortLogs (re reo : Bytes → Option (Bytes × Bytes)) (names : List Bytes) :
    Option (Bytes × Bytes) × List Int :=
  names.foldl (fun (rf, files) f =>
    match re f with
    | some r => (some r, files)
    | none =>
      match reo f with
      | none => (rf, files)
      | some r =>
        match atoi (text r.2) with
        | none => (rf, files)
        | some p => (rf, files ++ [p])) (none, [])

def previousIndex (files : List Int) (p : Int) : Option Int :=
  match files with
  | [] => none
  | [file] => some file
  | files =>
    let files := (files ++ [p]).mergeSort
    match files.idxOf p with
    | 0 => files.getLast?
    | i + 1 => files[i]?

/-- A log into the output file, through a temporary file if it is in a
container. -/
def collectLog (h : GCHost) (t : GCTarget) (log : Path) (suffix : String) :
    GCProg (Option FsError) := do
  if t.dockerID ≠ "" then
    let tmp := filepathJoin h.tempDir (t.out ++ suffix)
    match ← askGC (.dockerCopy tmp (t.dockerID ++ ":" ++ log)) with
    | some err => return some err
    | none => copyFile h tmp t.pid
  else copyFile h log t.pid

def collectRotated (h : GCHost) (t : GCTarget) (preLog : Option Path) (curLog : Path) :
    GCProg GCOutcome := do
  match preLog with
  | none => return ⟨true, ← collectLog h t curLog ".cur"⟩
  | some preLog =>
    -- that the previous log could not be collected is only logged
    let _ ← collectLog h t preLog ".pre"
    return ⟨true, ← collectLog h t curLog ".cur"⟩

/-- The rotated logs of the names found; `gc` is whether the output file is
there already. -/
def processRotated (h : GCHost) (t : GCTarget) (gcPath : Path) (gc : Bool) (names : List Bytes) :
    GCProg GCOutcome := do
  let logName := filepathBase gcPath
  match h.findSubmatch (logName ++ "\\.([0-9]+?)\\.current"),
      h.findSubmatch (logName ++ "\\.([0-9]+)") with
  | some re, some reo =>
    match sortLogs re reo names with
    | (none, _) =>
      -- `os.IsNotExist` does not look into a wrapped error
      return ⟨gc, some ⟨"can not find the current log file, file does not exist", false⟩⟩
    | (some (curLog, index), files) =>
      match atoi (text index) with
      | none =>
        let num := String.ofList (text index)
        return ⟨gc, some ⟨s!"strconv.Atoi: parsing \"{num}\": value out of range", false⟩⟩
      | some p =>
        let preLog := (previousIndex files p).map fun i => gcPath ++ "." ++ toString i
        let curLog := filepathJoin (filepathDir gcPath) (String.ofList (text curLog))
        if gc then collectRotated h t preLog curLog else
        match ← askGC (.create t.out) with
        | some err => return ⟨false, some err⟩
        | none => collectRotated h t preLog curLog
  | _, _ => return (← askGC .panic).elim

def processMissing (h : GCHost) (t : GCTarget) (gcPath : Path) (gc : Bool) (err : FsError) :
    GCProg GCOutcome := do
  if !err.notExist then return ⟨gc, some err⟩ else
  match ← listLogs t (filepathDir gcPath) with
  | .error err => return ⟨false, some err⟩
  | .ok names => processRotated h t gcPath gc names

def processResolved (h : GCHost) (t : GCTarget) (gcPath : Path) : GCProg GCOutcome := do
  if t.dockerID ≠ "" then
    match ← askGC (.dockerCopy t.out (t.dockerID ++ ":" ++ gcPath)) with
    | none =>
      let err ← askGC (.openOut t.out)
      return ⟨Option.isNone err, err⟩
    | some err => processMissing h t gcPath false err
  else
    match ← askGC (.create t.out) with
    | some err => return ⟨false, some err⟩
    | none =>
      match ← copyFile h gcPath t.pid with
      | none => return ⟨true, none⟩
      | some err => processMissing h t gcPath true err

def processGCLogFile (h : GCHost) (gcPath : Path) (t : GCTarget) : GCProg GCOutcome := do
  if gcPath = "" then return ⟨false, none⟩ else
  let gcPath ← resolvePlaceholders gcPath t.pid
  let gcPath ← findLatestFileInRotatingLogFiles gcPath
  processResolved h t gcPath

end YcAgent.Capture
