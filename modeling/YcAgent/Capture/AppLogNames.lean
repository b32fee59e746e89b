import Mathlib.Data.List.Nodup
import Mathlib.Logic.Function.Basic
import YcAgent.Capture.Post
import YcAgent.Go.Filepath
import YcAgent.Go.Strings
import YcAgent.Lib.Moves

/-!
`AppLog` captures that run side by side in the capture directory, each with its
own list of source files. A capture looks for a name that is not taken and then
creates its destination file under it, in two calls. Any call may fail, and every
handle writes at an offset of its own. Whatever else writes files of such names,
as the capture of a Node.js GC log does with `1.appLogs.nodeapp.log`, is assumed
not to run in the directory.
-/

namespace YcAgent.Capture

open Go Lib.Moves

variable {ι : Type}

inductive DirEntry where
  | file (content : Bytes)
  | dir
  deriving DecidableEq

inductive StatReply where
  | notExist
  | failed
  | info (isDir : Bool)

def stat : Option DirEntry → StatReply
  | none => .notExist
  | some (.file _) => .info false
  | some .dir => .info true

def fileExists : StatReply → Bool
  | .notExist => false
  | .failed => false
  | .info isDir => !isDir

/-- A name that `generateUniqueLogPath` tries. -/
def logPath (counter : Nat) (baseFileName : String) : String :=
  toString counter ++ ".appLogs." ++ baseFileName

/-- A write through a handle at `offset`; bytes never written are zero. -/
def writeAt (content : Bytes) (offset : Nat) (chunk : Bytes) : Bytes :=
  (content ++ List.replicate (offset - content.length) 0).take offset ++ chunk ++
    content.drop (offset + chunk.length)

theorem writeAt_length (content chunk : Bytes) :
    writeAt content content.length chunk = content ++ chunk := by
  simp [writeAt]

theorem exists_file_of_fileExists {entry : Option DirEntry} :
    fileExists (stat entry) = true ↔ ∃ content, entry = some (.file content) := by
  match entry with
  | none => simp [stat, fileExists]
  | some .dir => simp [stat, fileExists]
  | some (.file content) => simp [stat, fileExists]

inductive AppLogPoint where
  | between
  /-- In the loop of `generateUniqueLogPath`. -/
  | probing (filePath : Path) (counter : Nat)
  | creating (filePath : Path) (dstPath : String)
  /-- In `io.Copy`, with what has been written and what is left to read. -/
  | copying (filePath : Path) (dstPath : String) (copied left : Bytes)

def AppLogPoint.dstPath : AppLogPoint → Option String
  | .between => none
  | .probing _ _ => none
  | .creating _ dstPath => some dstPath
  | .copying _ dstPath _ _ => some dstPath

/-- The call a capture makes next succeeds or fails; a read returns up to
`size + 1` bytes. -/
inductive AppLogTurn where
  | next
  | copy (size : Nat)
  | fail

structure CopiedLog (ι : Type) where
  capture : ι
  filePath : Path
  dstPath : String

structure AppLogs (ι : Type) where
  dir : String → Option DirEntry
  rest : ι → List Path
  point : ι → AppLogPoint
  created : List String
  complete : List (CopiedLog ι)

namespace AppLogs

def start (dir : String → Option DirEntry) (paths : ι → List Path) : AppLogs ι where
  dir := dir
  rest := paths
  point _ := .between
  created := []
  complete := []

section Turns

variable [DecidableEq ι] (captured : ι → Path → Bytes)

def goto (s : AppLogs ι) (i : ι) (p : AppLogPoint) : AppLogs ι :=
  { s with point := Function.update s.point i p }

def store (s : AppLogs ι) (name : String) (content : Bytes) : AppLogs ι :=
  { s with dir := Function.update s.dir name (some (.file content)) }

def content (s : AppLogs ι) (name : String) : Bytes :=
  match s.dir name with
  | some (.file content) => content
  | _ => []

/-- The next call of a capture. `captured` is what `copyLogContent` copies of a
source file: its last lines, or all of it. -/
def turn (s : AppLogs ι) : ι × AppLogTurn → Option (AppLogs ι)
  | (i, t) =>
    match s.point i, s.rest i, t with
    | .between, filePath :: rest, .next =>
      some { s.goto i (.probing filePath 1) with rest := Function.update s.rest i rest }
    | .between, _ :: rest, .fail => some { s with rest := Function.update s.rest i rest }
    | .probing filePath counter, _, .next =>
      let path := logPath counter (filepathBase filePath)
      some (s.goto i (if fileExists (stat (s.dir path)) then .probing filePath (counter + 1)
        else .creating filePath path))
    | .probing filePath counter, _, .fail =>
      let path := logPath counter (filepathBase filePath)
      some (s.goto i (if fileExists .failed then .probing filePath (counter + 1)
        else .creating filePath path))
    | .creating filePath dstPath, _, .next =>
      if s.dir dstPath = some .dir then none
      else some { (s.store dstPath []).goto i (.copying filePath dstPath [] (captured i filePath))
        with created := dstPath :: s.created }
    | .creating _ _, _, .fail => some (s.goto i .between)
    | .copying filePath dstPath copied left, _, .copy size =>
      let chunk := left.take (size + 1)
      some ((s.store dstPath (writeAt (s.content dstPath) copied.length chunk)).goto i
        (.copying filePath dstPath (copied ++ chunk) (left.drop (size + 1))))
    | .copying filePath dstPath _ [], _, .next =>
      some { s.goto i .between with complete := ⟨i, filePath, dstPath⟩ :: s.complete }
    | .copying _ _ _ _, _, .fail => some (s.goto i .between)
    | _, _, _ => none

end Turns

def claimed (s : AppLogs ι) : ι × AppLogTurn → Option String
  | (i, t) =>
    match s.point i, t with
    | .probing filePath counter, .next =>
      let path := logPath counter (filepathBase filePath)
      if fileExists (stat (s.dir path)) then none else some path
    | .probing filePath counter, .fail => some (logPath counter (filepathBase filePath))
    | _, _ => none

/-- When a capture finds a name free, no file has it, and no other capture is
about to create one under it. -/
def Exclusive (s : AppLogs ι) (m : ι × AppLogTurn) : Prop :=
  ∀ name, s.claimed m = some name → fileExists (stat (s.dir name)) = false ∧
    ∀ j filePath, s.point j ≠ .creating filePath name

/-- No destination file is made twice, and those that have been copied to the end
hold the content of their source. -/
structure Separate (captured : ι → Path → Bytes) (s : AppLogs ι) : Prop where
  created : s.created.Nodup
  own : (s.complete.map CopiedLog.dstPath).Nodup
  complete : ∀ e ∈ s.complete, s.dir e.dstPath = some (.file (captured e.capture e.filePath))

section Cases

variable [DecidableEq ι] {captured : ι → Path → Bytes} {s s' : AppLogs ι} {i : ι}

/-- The turns of a capture `i` by what they change beside its point. -/
inductive Turned (captured : ι → Path → Bytes) (s : AppLogs ι) (i : ι) : AppLogs ι → Prop
  | pass {p} (rest : ι → List Path) (hp : p.dstPath = none) :
      Turned captured s i { s.goto i p with rest := rest }
  | claim {filePath dstPath} (hfree : fileExists (stat (s.dir dstPath)) = false)
      (hnone : ∀ j filePath, s.point j ≠ .creating filePath dstPath) :
      Turned captured s i (s.goto i (.creating filePath dstPath))
  | create {filePath dstPath} (hpoint : s.point i = .creating filePath dstPath) :
      Turned captured s i
        { (s.store dstPath []).goto i (.copying filePath dstPath [] (captured i filePath))
          with created := dstPath :: s.created }
  | copy {filePath dstPath copied left} (chunk more : Bytes) (hleft : left = chunk ++ more)
      (hpoint : s.point i = .copying filePath dstPath copied left) :
      Turned captured s i
        ((s.store dstPath (writeAt (s.content dstPath) copied.length chunk)).goto i
          (.copying filePath dstPath (copied ++ chunk) more))
  | complete {filePath dstPath copied} (hpoint : s.point i = .copying filePath dstPath copied []) :
      Turned captured s i
        { s.goto i .between with complete := ⟨i, filePath, dstPath⟩ :: s.complete }

theorem turn_cases {t : AppLogTurn} (hexclusive : s.Exclusive (i, t))
    (h : s.turn captured (i, t) = some s') : Turned captured s i s' := by
  unfold turn at h
  simp only at h
  split at h
  case h_1 filePath rest _ _ =>
    cases h
    exact .pass _ rfl
  case h_2 filePath rest hpoint _ =>
    cases h
    have hstay : s.goto i .between = s := by
      rw [goto, ← hpoint, Function.update_eq_self]
    have hturned : Turned captured s i
        { s.goto i .between with rest := Function.update s.rest i rest } := .pass _ rfl
    rwa [hstay] at hturned
  case h_3 filePath counter hpoint =>
    split at h
    case isTrue =>
      cases h
      exact .pass s.rest rfl
    case isFalse hfree =>
      cases h
      have hclaim := hexclusive (logPath counter (filepathBase filePath)) (by
        simp [claimed, hpoint, hfree])
      exact .claim hclaim.1 hclaim.2
  case h_4 filePath counter hpoint =>
    cases h
    have hclaim := hexclusive (logPath counter (filepathBase filePath)) (by
      simp only [claimed, hpoint])
    exact .claim hclaim.1 hclaim.2
  case h_5 filePath dstPath hpoint =>
    split at h
    case isTrue => cases h
    case isFalse =>
      cases h
      exact .create hpoint
  case h_6 =>
    cases h
    exact .pass s.rest rfl
  case h_7 filePath dstPath copied left size hpoint =>
    cases h
    exact .copy _ _ (List.take_append_drop (size + 1) left).symm hpoint
  case h_8 filePath dstPath copied hpoint =>
    cases h
    exact .complete hpoint
  case h_9 =>
    cases h
    exact .pass s.rest rfl
  case h_10 => cases h

end Cases

def Apart (point : ι → AppLogPoint) : Prop :=
  ∀ i j name, (point i).dstPath = some name → (point j).dstPath = some name → i = j

theorem Apart.update [DecidableEq ι] {point : ι → AppLogPoint} (h : Apart point) {i : ι}
    {p : AppLogPoint}
    (hp : ∀ name j, p.dstPath = some name → (point j).dstPath = some name → j = i) :
    Apart (Function.update point i p) := by
  intro j k name hj hk
  rcases eq_or_ne j i with rfl | hji
  · rcases eq_or_ne k j with rfl | hkj
    · rfl
    · rw [Function.update_self] at hj
      rw [Function.update_of_ne hkj] at hk
      exact (hp name k hj hk).symm
  · rw [Function.update_of_ne hji] at hj
    rcases eq_or_ne k i with rfl | hki
    · rw [Function.update_self] at hk
      exact hp name j hk hj
    · rw [Function.update_of_ne hki] at hk
      exact h j k name hj hk

/-- What the captures hold: a file that is about to be created would be the first
of its name, and one that is being copied to has the content copied so far. -/
structure Held (captured : ι → Path → Bytes) (s : AppLogs ι) : Prop where
  apart : Apart s.point
  file : ∀ name ∈ s.created, ∃ content, s.dir name = some (.file content)
  creating : ∀ i filePath dstPath, s.point i = .creating filePath dstPath → dstPath ∉ s.created
  copying : ∀ i filePath dstPath copied left, s.point i = .copying filePath dstPath copied left →
    dstPath ∈ s.created ∧ dstPath ∉ s.complete.map CopiedLog.dstPath ∧
      s.dir dstPath = some (.file copied) ∧ copied ++ left = captured i filePath
  known : ∀ name ∈ s.complete.map CopiedLog.dstPath, name ∈ s.created

variable {captured : ι → Path → Bytes} {s s' : AppLogs ι} {i : ι}

theorem Held.start (dir : String → Option DirEntry) (paths : ι → List Path) :
    (start dir paths).Held captured where
  apart _ _ _ hi := by cases hi
  file _ hname := by cases hname
  creating _ _ _ hi := by cases hi
  copying _ _ _ _ _ hi := by cases hi
  known _ hname := by cases hname

theorem Separate.start (dir : String → Option DirEntry) (paths : ι → List Path) :
    (start dir paths).Separate captured where
  created := List.nodup_nil
  own := List.nodup_nil
  complete _ he := by cases he

theorem Held.fileExists_of_copying (h : s.Held captured) {filePath dstPath : String}
    {copied left : Bytes} (hpoint : s.point i = .copying filePath dstPath copied left) :
    fileExists (stat (s.dir dstPath)) = true :=
  exists_file_of_fileExists.2 ⟨copied, (h.copying i _ _ _ _ hpoint).2.2.1⟩

variable [DecidableEq ι]

structure Kept (s s' : AppLogs ι) (name : String) : Prop where
  dir : s'.dir name = s.dir name
  created : name ∈ s'.created ↔ name ∈ s.created
  complete : name ∈ s'.complete.map CopiedLog.dstPath ↔ name ∈ s.complete.map CopiedLog.dstPath

theorem Held.moved (h : s.Held captured) {p : AppLogPoint}
    (hpoint : s'.point = Function.update s.point i p)
    (hfree : ∀ name j, p.dstPath = some name → (s.point j).dstPath = some name → j = i)
    (hkept : ∀ name j, j ≠ i → (s.point j).dstPath = some name → Kept s s' name)
    (hfile : ∀ name ∈ s'.created, ∃ content, s'.dir name = some (.file content))
    (hknown : ∀ name ∈ s'.complete.map CopiedLog.dstPath, name ∈ s'.created)
    (hcreating : ∀ filePath dstPath, p = .creating filePath dstPath → dstPath ∉ s'.created)
    (hcopying : ∀ filePath dstPath copied left, p = .copying filePath dstPath copied left →
      dstPath ∈ s'.created ∧ dstPath ∉ s'.complete.map CopiedLog.dstPath ∧
        s'.dir dstPath = some (.file copied) ∧ copied ++ left = captured i filePath) :
    s'.Held captured := by
  refine ⟨?_, hfile, fun j filePath dstPath hj => ?_,
    fun j filePath dstPath copied left hj => ?_, hknown⟩
  · rw [hpoint]
    exact h.apart.update hfree
  · rcases eq_or_ne j i with rfl | hne
    · rw [hpoint, Function.update_self] at hj
      exact hcreating filePath dstPath hj
    · rw [hpoint, Function.update_of_ne hne] at hj
      have hname : (s.point j).dstPath = some dstPath := by rw [hj]; rfl
      rw [(hkept dstPath j hne hname).created]
      exact h.creating j filePath dstPath hj
  · rcases eq_or_ne j i with rfl | hne
    · rw [hpoint, Function.update_self] at hj
      exact hcopying filePath dstPath copied left hj
    · rw [hpoint, Function.update_of_ne hne] at hj
      have hname : (s.point j).dstPath = some dstPath := by rw [hj]; rfl
      have hsame := hkept dstPath j hne hname
      rw [hsame.created, hsame.complete, hsame.dir]
      exact h.copying j filePath dstPath copied left hj

theorem Held.pass (h : s.Held captured) {p : AppLogPoint} (rest : ι → List Path)
    (hp : p.dstPath = none) : { s.goto i p with rest := rest }.Held captured := by
  apply h.moved rfl
  · intro name j hname
    rw [hp] at hname
    cases hname
  · intro name j _ _
    exact ⟨rfl, Iff.rfl, Iff.rfl⟩
  · exact h.file
  · exact h.known
  · intro filePath dstPath heq
    subst heq
    cases hp
  · intro filePath dstPath copied left heq
    subst heq
    cases hp

theorem Held.claim (h : s.Held captured) {filePath dstPath : String}
    (hfree : fileExists (stat (s.dir dstPath)) = false)
    (hnone : ∀ j filePath, s.point j ≠ .creating filePath dstPath) :
    (s.goto i (.creating filePath dstPath)).Held captured := by
  apply h.moved rfl
  · intro name j hname hj
    cases hname
    cases hpoint : s.point j with
    | between => simp [hpoint, AppLogPoint.dstPath] at hj
    | probing => simp [hpoint, AppLogPoint.dstPath] at hj
    | creating other dst =>
      rw [hpoint] at hj
      cases hj
      exact absurd hpoint (hnone j other)
    | copying other dst copied left =>
      rw [hpoint] at hj
      cases hj
      rw [h.fileExists_of_copying hpoint] at hfree
      cases hfree
  · intro name j _ _
    exact ⟨rfl, Iff.rfl, Iff.rfl⟩
  · exact h.file
  · exact h.known
  · intro other dst heq hcreated
    cases heq
    rw [exists_file_of_fileExists.2 (h.file dstPath hcreated)] at hfree
    cases hfree
  · intro other dst copied left heq
    cases heq

theorem Held.create (h : s.Held captured) {filePath dstPath : String}
    (hpoint : s.point i = .creating filePath dstPath) :
    { (s.store dstPath []).goto i (.copying filePath dstPath [] (captured i filePath))
      with created := dstPath :: s.created }.Held captured := by
  have hname : (s.point i).dstPath = some dstPath := by rw [hpoint]; rfl
  have hnew := h.creating i filePath dstPath hpoint
  apply h.moved rfl
  · intro name j heq hj
    cases heq
    exact h.apart j i dstPath hj hname
  · intro name j hne hj
    have hother : name ≠ dstPath := fun heq => hne (h.apart j i dstPath (heq ▸ hj) hname)
    exact ⟨Function.update_of_ne hother _ _, by simp [hother], Iff.rfl⟩
  · intro name hcreated
    rcases eq_or_ne name dstPath with rfl | hother
    · exact ⟨[], Function.update_self _ _ _⟩
    · obtain ⟨content, hdir⟩ := h.file name (List.mem_of_ne_of_mem hother hcreated)
      exact ⟨content, (Function.update_of_ne hother _ _).trans hdir⟩
  · intro name hcomplete
    exact List.mem_cons_of_mem _ (h.known name hcomplete)
  · intro other dst heq
    cases heq
  · intro other dst copied left heq
    cases heq
    exact ⟨List.mem_cons_self, fun hcomplete => hnew (h.known dstPath hcomplete),
      Function.update_self _ _ _, rfl⟩

theorem Held.copy (h : s.Held captured) {filePath dstPath : String} {copied left : Bytes}
    (chunk more : Bytes) (hleft : left = chunk ++ more)
    (hpoint : s.point i = .copying filePath dstPath copied left) :
    ((s.store dstPath (writeAt (s.content dstPath) copied.length chunk)).goto i
      (.copying filePath dstPath (copied ++ chunk) more)).Held captured := by
  have hname : (s.point i).dstPath = some dstPath := by rw [hpoint]; rfl
  obtain ⟨hcreated, hcomplete, hdir, hall⟩ := h.copying i filePath dstPath copied left hpoint
  have hcontent : s.content dstPath = copied := by rw [content, hdir]
  rw [hcontent, writeAt_length]
  apply h.moved rfl
  · intro name j heq hj
    cases heq
    exact h.apart j i dstPath hj hname
  · intro name j hne hj
    have hother : name ≠ dstPath := fun heq => hne (h.apart j i dstPath (heq ▸ hj) hname)
    exact ⟨Function.update_of_ne hother _ _, Iff.rfl, Iff.rfl⟩
  · intro name hmade
    rcases eq_or_ne name dstPath with rfl | hother
    · exact ⟨_, Function.update_self _ _ _⟩
    · obtain ⟨content, hold⟩ := h.file name hmade
      exact ⟨content, (Function.update_of_ne hother _ _).trans hold⟩
  · exact h.known
  · intro other dst heq
    cases heq
  · intro other dst copied' left' heq
    cases heq
    refine ⟨hcreated, hcomplete, Function.update_self _ _ _, ?_⟩
    rw [List.append_assoc, ← hleft]
    exact hall

theorem Held.complete (h : s.Held captured) {filePath dstPath : String} {copied : Bytes}
    (hpoint : s.point i = .copying filePath dstPath copied []) :
    { s.goto i .between with complete := ⟨i, filePath, dstPath⟩ :: s.complete }.Held captured := by
  have hname : (s.point i).dstPath = some dstPath := by rw [hpoint]; rfl
  apply h.moved rfl
  · intro name j heq
    cases heq
  · intro name j hne hj
    have hother : name ≠ dstPath := fun heq => hne (h.apart j i dstPath (heq ▸ hj) hname)
    exact ⟨rfl, Iff.rfl, by simp [hother]⟩
  · exact h.file
  · intro name hmem
    rcases List.mem_cons.1 hmem with rfl | hmem
    · exact (h.copying i _ _ _ _ hpoint).1
    · exact h.known name hmem
  · intro other dst heq
    cases heq
  · intro other dst copied' left heq
    cases heq

theorem Held.turned (h : s.Held captured) (hturned : Turned captured s i s') :
    s'.Held captured := by
  cases hturned with
  | pass rest hp => exact h.pass rest hp
  | claim hfree hnone => exact h.claim hfree hnone
  | create hpoint => exact h.create hpoint
  | copy chunk more hleft hpoint => exact h.copy chunk more hleft hpoint
  | complete hpoint => exact h.complete hpoint

theorem Separate.turned (h : s.Separate captured) (hheld : s.Held captured)
    (hturned : Turned captured s i s') : s'.Separate captured := by
  have hknown : ∀ e ∈ s.complete, e.dstPath ∈ s.complete.map CopiedLog.dstPath :=
    fun e he => List.mem_map_of_mem he
  cases hturned with
  | pass => exact ⟨h.created, h.own, h.complete⟩
  | claim => exact ⟨h.created, h.own, h.complete⟩
  | @create filePath dstPath hpoint =>
    have hnew := hheld.creating i filePath dstPath hpoint
    refine ⟨List.nodup_cons.2 ⟨hnew, h.created⟩, h.own, fun e he => ?_⟩
    have hother : e.dstPath ≠ dstPath := fun heq =>
      hnew (heq ▸ hheld.known _ (hknown e he))
    exact (Function.update_of_ne hother _ _).trans (h.complete e he)
  | @copy filePath dstPath copied left chunk more hleft hpoint =>
    have hcopying := hheld.copying i filePath dstPath copied left hpoint
    refine ⟨h.created, h.own, fun e he => ?_⟩
    have hother : e.dstPath ≠ dstPath := fun heq => hcopying.2.1 (heq ▸ hknown e he)
    exact (Function.update_of_ne hother _ _).trans (h.complete e he)
  | @complete filePath dstPath copied hpoint =>
    obtain ⟨-, hcomplete, hdir, hall⟩ := hheld.copying i filePath dstPath copied [] hpoint
    refine ⟨h.created, List.nodup_cons.2 ⟨hcomplete, h.own⟩, fun e he => ?_⟩
    rcases List.mem_cons.1 he with rfl | he
    · rw [List.append_nil] at hall
      exact hall ▸ hdir
    · exact h.complete e he

theorem turn_keeps {m : ι × AppLogTurn} (hs : s.Held captured ∧ s.Separate captured)
    (hexclusive : s.Exclusive m) (hturn : s.turn captured m = some s') :
    s'.Held captured ∧ s'.Separate captured := by
  have hturned := turn_cases hexclusive hturn
  exact ⟨hs.1.turned hturned, hs.2.turned hs.1 hturned⟩

/-- If a capture that finds a name free is the only one to have found it free, and
no file has it, then no two source files get the same destination, and each
destination that has been copied to the end holds what was to be captured. -/
theorem separate_of_exclusive (captured : ι → Path → Bytes) (dir : String → Option DirEntry)
    (paths : ι → List Path) (turns : List (ι × AppLogTurn)) (s : AppLogs ι)
    (hexclusive : Fits (turn captured) Exclusive turns (start dir paths))
    (hrun : run (turn captured) turns (start dir paths) = some s) : s.Separate captured :=
  (run_keeps (fun _ _ _ => turn_keeps) ⟨Held.start dir paths, Separate.start dir paths⟩
    hexclusive hrun).2

/-- A capture that is left alone creates its file and copies a small log in one
read. -/
theorem exists_run_copying {filePath dstPath : Path}
    (hpoint : s.point i = .creating filePath dstPath) (hdir : s.dir dstPath ≠ some .dir)
    (hsize : (captured i filePath).length ≤ 4096) :
    ∃ s', run (turn captured) [(i, .next), (i, .copy 4095), (i, .next)] s = some s' ∧
      s'.created = dstPath :: s.created ∧
      s'.complete = ⟨i, filePath, dstPath⟩ :: s.complete ∧
      s'.dir dstPath = some (.file (captured i filePath)) := by
  have htake : (captured i filePath).take 4096 = captured i filePath := List.take_of_length_le hsize
  have hdrop : (captured i filePath).drop 4096 = [] := List.drop_of_length_le hsize
  simp [run, turn, hpoint, hdir, goto, store, content, htake, hdrop, writeAt]

end AppLogs

inductive AppLogSetting where
  | legacy
  | listed
  deriving DecidableEq

open AppLogs

def lastLine : AppLogSetting → Path → Bytes
  | .legacy, _ => ascii "starting\n"
  | .listed, _ => ascii "ready\n"

def sameLog : AppLogSetting → List Path := fun _ => ["/var/log/app.log"]

def sameName : String := logPath 1 (filepathBase "/var/log/app.log")

def nextName : String := logPath 2 (filepathBase "/var/log/app.log")

theorem nextName_ne : logPath 2 (filepathBase "/var/log/app.log") ≠
    logPath 1 (filepathBase "/var/log/app.log") := by
  intro heq
  have hlist := congrArg String.toList heq
  simp only [logPath, String.toList_append, List.append_cancel_right_eq] at hlist
  exact absurd hlist (by decide)

private theorem forall_setting {P : AppLogSetting → Prop} :
    (∀ j, P j) ↔ P .legacy ∧ P .listed :=
  ⟨fun h => ⟨h _, h _⟩, fun h j => by cases j with | legacy => exact h.1 | listed => exact h.2⟩

/-- The second capture looks for a name after the first has created its file. -/
def secondProbesLater : List (AppLogSetting × AppLogTurn) :=
  [(.legacy, .next), (.listed, .next), (.legacy, .next), (.legacy, .next), (.listed, .next),
    (.listed, .next), (.listed, .next), (.legacy, .copy 4095), (.listed, .copy 4095),
    (.listed, .next), (.legacy, .next)]

theorem secondProbesLater_exclusive :
    Fits (turn lastLine) Exclusive secondProbesLater (start (fun _ => none) sameLog) := by
  simp [secondProbesLater, Fits, Exclusive, claimed, turn, start, goto, sameLog, store, stat,
    fileExists, nextName_ne, forall_setting, lastLine, ascii]

theorem secondProbesLater_separate : ∃ s,
    run (turn lastLine) secondProbesLater (start (fun _ => none) sameLog) = some s ∧
      s.Separate lastLine ∧ s.created = [nextName, sameName] ∧ s.complete.length = 2 := by
  have hruns : ∃ s, run (turn lastLine) secondProbesLater (start (fun _ => none) sameLog) = some s ∧
      s.created = [nextName, sameName] ∧ s.complete.length = 2 := by
    simp [secondProbesLater, run, turn, start, goto, sameLog, store, stat, fileExists, nextName_ne,
      lastLine, ascii, nextName, sameName]
  obtain ⟨s, hrun, hcreated, hcomplete⟩ := hruns
  exact ⟨s, hrun, separate_of_exclusive lastLine _ _ _ s secondProbesLater_exclusive hrun,
    hcreated, hcomplete⟩

/-- Both captures look for a name before either has created a file. -/
def bothProbe : List (AppLogSetting × AppLogTurn) :=
  [(.legacy, .next), (.listed, .next), (.legacy, .next), (.listed, .next), (.legacy, .next),
    (.legacy, .copy 4095), (.legacy, .next), (.listed, .next), (.listed, .copy 4095),
    (.listed, .next)]

private theorem run_legacy : ∃ s,
    run (turn lastLine) (bothProbe.take 7) (start (fun _ => none) sameLog) = some s ∧
      s.created = [sameName] ∧ s.complete = [⟨.legacy, "/var/log/app.log", sameName⟩] ∧
      s.point .listed = .creating "/var/log/app.log" sameName ∧ s.dir sameName ≠ some .dir :=
  ⟨_, rfl, rfl, rfl, rfl, by simp [goto, store, sameName]⟩

private theorem run_bothProbe : ∃ s,
    run (turn lastLine) bothProbe (start (fun _ => none) sameLog) = some s ∧
      s.created = [sameName, sameName] ∧
      s.complete = [⟨.listed, "/var/log/app.log", sameName⟩,
        ⟨.legacy, "/var/log/app.log", sameName⟩] ∧
      s.dir sameName = some (.file (lastLine .listed "/var/log/app.log")) := by
  obtain ⟨s, hrun, hcreated, hcomplete, hpoint, hdir⟩ := run_legacy
  have hsize : (lastLine .listed "/var/log/app.log").length ≤ 4096 := by decide
  obtain ⟨s', hcopied, hcreated', hcomplete', hdir'⟩ := exists_run_copying hpoint hdir hsize
  refine ⟨s', ?_, by rw [hcreated', hcreated], by rw [hcomplete', hcomplete], hdir'⟩
  rw [← List.take_append_drop 7 bothProbe, run_append, hrun]
  exact hcopied

theorem legacy_log_overwritten : ∃ s,
    run (turn lastLine) bothProbe (start (fun _ => none) sameLog) = some s ∧
      s.created = [sameName, sameName] ∧
      s.complete = [⟨.listed, "/var/log/app.log", sameName⟩,
        ⟨.legacy, "/var/log/app.log", sameName⟩] ∧
      s.dir sameName = some (.file (lastLine .listed "/var/log/app.log")) ∧
      ¬s.Separate lastLine := by
  obtain ⟨s, hrun, hcreated, hcomplete, hdir⟩ := run_bothProbe
  refine ⟨s, hrun, hcreated, hcomplete, hdir, fun hseparate => ?_⟩
  have hnodup := hseparate.created
  rw [hcreated] at hnodup
  exact (List.nodup_cons.1 hnodup).1 List.mem_cons_self

end YcAgent.Capture
