import YcAgent.Capture.Host
import YcAgent.Go.Filepath
import YcAgent.Lib.Ghost

/-!
The signal mode of the Node.js capture: the report signal is sent to the target,
and the directory of its reports is polled for a file that is new, or newer than
it was. Any process may write report files at any time. The settings are those
the target's command line gives, with the file name trimmed; `rounds` is how
often the deadline is found to be ahead.
-/

namespace YcAgent.Capture.NodeSignal

open Go Lib.Program

abbrev Time := Int

structure NodeReportSettings where
  dir : String
  filename : String

def isAbs (path : String) : Bool := path.toList.head? == some '/'

def nodeReportPath (settings : NodeReportSettings) : String :=
  if settings.filename = "" then ""
  else if isAbs settings.filename then filepathClean settings.filename
  else filepathClean (filepathJoin settings.dir settings.filename)

def isReportName (name : String) : Bool :=
  "report".toList.isPrefixOf name.toList && ".json".toList.isSuffixOf name.toList

structure FileStat where
  isDir : Bool
  modTime : Time
  size : Nat

inductive SignalOp where
  | isProcessExists
  /-- The names of the entries, if the directory can be read. -/
  | readDir (dir : String)
  /-- `e.Info()` of an entry: its modification time. -/
  | info (path : Path)
  | stat (path : Path)
  | now
  | kill
  /-- The order in which a `range` loop visits the files. -/
  | range (files : GoMap Path Time)

abbrev SignalOp.Reply : SignalOp → Type
  | .isProcessExists => Bool
  | .readDir _ => Option (List String)
  | .info _ => Option Time
  | .stat _ => Option FileStat
  | .now => Time
  | .kill => Option IOError
  | .range _ => List Path

abbrev SignalProg := Prog SignalOp SignalOp.Reply

def ask (op : SignalOp) : SignalProg op.Reply := .perform op

theorem ask_bind {α : Type} (op : SignalOp) (k : op.Reply → SignalProg α) :
    (ask op >>= k) = .act op k := rfl

def addEntries (dir : String) : List String → GoMap Path Time → SignalProg (GoMap Path Time)
  | [], out => return out
  | name :: rest, out => do
    if isReportName name then
      match ← ask (.info (filepathJoin dir name)) with
      | none => addEntries dir rest out
      | some modTime => addEntries dir rest (out.insert (filepathJoin dir name) modTime)
    else addEntries dir rest out

def directoryFiles (dir : String) : SignalProg (GoMap Path Time) := do
  match ← ask (.readDir dir) with
  | none => return ∅
  | some names => addEntries dir names ∅

def addCustomPath (customPath : Path) (out : GoMap Path Time) : SignalProg (GoMap Path Time) := do
  if customPath = "" then return out
  else
    match ← ask (.stat customPath) with
    | none => return out
    | some info => return if info.isDir then out else out.insert customPath info.modTime

def nodeReportFiles (settings : NodeReportSettings) : SignalProg (GoMap Path Time) := do
  let out ← directoryFiles settings.dir
  addCustomPath (nodeReportPath settings) out

def nodeFileStable (path : Path) : SignalProg Bool := do
  match ← ask (.stat path) with
  | none => return false
  | some first =>
    if first.size = 0 then return false
    else
      match ← ask (.stat path) with
      | none => return false
      | some second => return second.size == first.size

/-- A new file, or an existing name rewritten. -/
def fresh (before : GoMap Path Time) (sentAt : Time) (path : Path) (modTime : Time) : Bool :=
  match before.lookup path with
  | none => true
  | some prev => prev < modTime || sentAt < modTime

/-- The loop over the files of one poll. -/
def pollFiles (before files : GoMap Path Time) (sentAt : Time) :
    List Path → SignalProg (Option Path)
  | [] => return none
  | path :: rest => do
    match files.lookup path with
    | none => pollFiles before files sentAt rest
    | some modTime =>
      if fresh before sentAt path modTime then
        if ← nodeFileStable path then return some path
        else pollFiles before files sentAt rest
      else pollFiles before files sentAt rest

def poll (pid : Pid) (timeout : String) (settings : NodeReportSettings)
    (before : GoMap Path Time) (sentAt : Time) : Nat → SignalProg (Except IOError Path)
  | 0 => return .error ("timed out after " ++ timeout ++
      " waiting for a Diagnostic Report from pid " ++ toString pid ++ " in " ++ settings.dir)
  | rounds + 1 => do
    let files ← nodeReportFiles settings
    let order ← ask (.range files)
    match ← pollFiles before files sentAt order with
    | some path => return .ok path
    | none =>
      if ← ask .isProcessExists then poll pid timeout settings before sentAt rounds
      else return .error ("process " ++ toString pid ++ " died before a report appeared")

/-- `signal` is what `parseNodeSignal` makes of the name. -/
def nodeSignalReportCapture (pid : Pid) (signalName timeout : String)
    (signal : Except IOError Unit) (settings : NodeReportSettings) (rounds : Nat) :
    SignalProg (Except IOError Path) := do
  match signal with
  | .error err => return .error err
  | .ok _ =>
    if ← ask .isProcessExists then
      let before ← nodeReportFiles settings
      let sentAt ← ask .now
      match ← ask .kill with
      | some err => return .error ("failed sending " ++ signalName ++ " to pid " ++
          toString pid ++ ": " ++ err)
      | none => poll pid timeout settings before sentAt rounds
    else return .error ("process " ++ toString pid ++ " does not exist")

structure ReportFile where
  modTime : Time
  size : Nat
  writer : Pid

/-- The files, apart from directories, and whether the signal has been sent. -/
structure World where
  file : Path → Option ReportFile
  sent : Bool

def IsEntryPath (dir : String) (path : Path) : Prop :=
  ∃ name, '/' ∉ name.toList ∧ isReportName name = true ∧ path = filepathJoin dir name

/-- The paths under which a report is looked for. -/
def IsReportPath (settings : NodeReportSettings) (path : Path) : Prop :=
  IsEntryPath settings.dir path ∨ path ≠ "" ∧ path = nodeReportPath settings

/-- What a call may answer. Any of them may fail. A path without a file may be a
directory. -/
def Answers : (op : SignalOp) → World → op.Reply → Prop
  | .readDir dir, w, some names => (∀ name ∈ names, '/' ∉ name.toList) ∧
      ∀ path, IsEntryPath dir path → w.file path ≠ none →
        ∃ name ∈ names, isReportName name = true ∧ path = filepathJoin dir name
  | .info path, w, some modTime => ∀ f, w.file path = some f → modTime = f.modTime
  | .stat path, w, some info =>
    match w.file path with
    | none => info.isDir = true
    | some f => info = ⟨false, f.modTime, f.size⟩
  | .range files, _, order => order.Perm files.keys
  | _, _, _ => True

def sends : (op : SignalOp) → op.Reply → Bool
  | .kill, none => true
  | _, _ => false

/-- The capture changes no files. -/
def Perform (op : SignalOp) (w : World) (r : op.Reply) (w' : World) : Prop :=
  Answers op w r ∧ w' = { w with sent := w.sent || sends op r }

def anyWriters : Semantics SignalOp SignalOp.Reply World where
  perform := Perform
  interfere w w' := w'.sent = w.sent

/-- Until the signal is sent no call fails on a file that is there, and no report
file of another process is dated after the time the signal is sent. -/
def Dated (pid : Pid) (settings : NodeReportSettings) : (op : SignalOp) → World → op.Reply → Prop
  | .readDir _, w, none => w.sent = true
  | .info path, w, none => w.sent = true ∨ w.file path = none
  | .stat path, w, none => w.sent = true ∨ w.file path = none
  | .now, w, sentAt => ∀ path f, IsReportPath settings path → w.file path = some f →
      f.writer ≠ pid → f.modTime ≤ sentAt
  | _, _, _ => True

/-- The report files that change are written by the target, or removed. -/
def OwnWrites (pid : Pid) (settings : NodeReportSettings) (w w' : World) : Prop :=
  w'.sent = w.sent ∧ ∀ path, IsReportPath settings path →
    w'.file path = w.file path ∨ w'.file path = none ∨
      ∃ f, w'.file path = some f ∧ f.writer = pid

def ownWriters (pid : Pid) (settings : NodeReportSettings) :
    Semantics SignalOp SignalOp.Reply World where
  perform op w r w' := Perform op w r w' ∧ Dated pid settings op w r
  interfere := OwnWrites pid settings

section Suspect

variable (pid : Pid) (settings : NodeReportSettings) (suspect : Path) (f : ReportFile)

/-- What the capture has seen: that the file `f` is not, or no longer, at the path
`suspect`, and whether the signal has been sent. -/
structure Sight where
  gone : Prop
  sent : Bool

/-- The answer is not that of a directory with the file `f` at the path. -/
def Contradicts (sent : Bool) : (op : SignalOp) → op.Reply → Prop
  | .readDir dir, some names => IsEntryPath dir suspect ∧
      ¬∃ name ∈ names, isReportName name = true ∧ suspect = filepathJoin dir name
  | .info path, none => path = suspect ∧ sent = false
  | .info path, some modTime => path = suspect ∧ modTime ≠ f.modTime
  | .stat path, none => path = suspect ∧ sent = false
  | .stat path, some info => path = suspect ∧ info ≠ ⟨false, f.modTime, f.size⟩
  | .now, sentAt => sentAt < f.modTime
  | _, _ => False

/-- The file is followed through the answers that the capture gets. -/
def sight : Ghost SignalOp SignalOp.Reply Sight where
  allowed _ _ := True
  possible g op r :=
    match op, r with
    | .readDir _, none => g.sent = true
    | .readDir _, some names => ∀ name ∈ names, '/' ∉ name.toList
    | .range files, order => order.Perm files.keys
    | _, _ => True
  after g op r :=
    ⟨g.gone ∨ IsReportPath settings suspect ∧ Contradicts suspect f g.sent op r,
      g.sent || sends op r⟩

/-- A file of another process that is gone does not come back. -/
def view (w : World) (g : Sight) : Prop :=
  (g.gone → IsReportPath settings suspect ∧ w.file suspect ≠ some f) ∧ w.sent = g.sent

variable {pid settings suspect f}

theorem gone_after {g : Sight} {op : SignalOp} {r : op.Reply} (h : g.gone) :
    ((sight settings suspect f).after g op r).gone := .inl h

theorem gone_of_contradicts {g : Sight} {op : SignalOp} {r : op.Reply}
    (hpath : IsReportPath settings suspect) (h : Contradicts suspect f g.sent op r) :
    ((sight settings suspect f).after g op r).gone := .inr ⟨hpath, h⟩

theorem not_contradicts {op : SignalOp} {w : World} {r : op.Reply}
    (hpath : IsReportPath settings suspect) (hwriter : f.writer ≠ pid)
    (hanswers : Answers op w r) (hdated : Dated pid settings op w r)
    (hfile : w.file suspect = some f) : ¬Contradicts suspect f w.sent op r := by
  intro hcontradicts
  match op, r with
  | .readDir dir, some names =>
    exact hcontradicts.2 (hanswers.2 suspect hcontradicts.1 (by simp [hfile]))
  | .info path, none =>
    obtain ⟨rfl, hsent⟩ := hcontradicts
    rcases hdated with hdone | hnone
    · simp [hsent] at hdone
    · simp [hfile] at hnone
  | .info path, some modTime =>
    obtain ⟨rfl, hne⟩ := hcontradicts
    exact hne (hanswers f hfile)
  | .stat path, none =>
    obtain ⟨rfl, hsent⟩ := hcontradicts
    rcases hdated with hdone | hnone
    · simp [hsent] at hdone
    · simp [hfile] at hnone
  | .stat path, some info =>
    obtain ⟨rfl, hne⟩ := hcontradicts
    simp only [Answers, hfile] at hanswers
    exact hne hanswers
  | .now, sentAt =>
    have hlt : sentAt < f.modTime := hcontradicts
    exact absurd (hdated suspect f hpath hfile hwriter) (Int.not_le.2 hlt)

theorem sight_describes (hwriter : f.writer ≠ pid) :
    (sight settings suspect f).Describes (ownWriters pid settings) (view settings suspect f) where
  perform op w r w' g _ hview hperform := by
    obtain ⟨⟨hanswers, rfl⟩, hdated⟩ := hperform
    constructor
    · match op, r with
      | .readDir _, none => exact hview.2.symm.trans hdated
      | .readDir _, some names => exact hanswers.1
      | .range files, order => exact hanswers
      | .isProcessExists, _ => trivial
      | .info _, _ => trivial
      | .stat _, _ => trivial
      | .now, _ => trivial
      | .kill, _ => trivial
    · refine ⟨fun hgone => ?_, congrArg (· || sends op r) hview.2⟩
      rcases hgone with hgone | ⟨hpath, hcontradicts⟩
      · exact hview.1 hgone
      · refine ⟨hpath, fun hhere => ?_⟩
        rw [← hview.2] at hcontradicts
        exact not_contradicts hpath hwriter hanswers hdated hhere hcontradicts
  interfere w w' g hview hwrites := by
    refine ⟨fun hgone => ?_, hwrites.1.trans hview.2⟩
    obtain ⟨hpath, hne⟩ := hview.1 hgone
    refine ⟨hpath, fun hback => ?_⟩
    rcases hwrites.2 suspect hpath with hsame | hnone | ⟨own, hown, hpid⟩
    · exact hne (hsame ▸ hback)
    · simp [hnone] at hback
    · rw [hback] at hown
      cases hown
      exact hwriter hpid

variable (settings suspect f) in
structure Snapshot (g : Sight) (files : GoMap Path Time) : Prop where
  paths : ∀ path ∈ files, IsReportPath settings path
  dated : g.gone ∨ ∀ modTime, files.lookup suspect = some modTime → modTime = f.modTime

theorem Snapshot.mono {g g' : Sight} {files : GoMap Path Time}
    (h : Snapshot settings suspect f g files) (hgone : g.gone → g'.gone) :
    Snapshot settings suspect f g' files :=
  ⟨h.paths, h.dated.imp_left hgone⟩

theorem Snapshot.insert {g : Sight} {files : GoMap Path Time} {path : Path} {modTime : Time}
    (h : Snapshot settings suspect f g files) (hpath : IsReportPath settings path)
    (hdated : path = suspect → g.gone ∨ modTime = f.modTime) :
    Snapshot settings suspect f g (files.insert path modTime) := by
  refine ⟨fun other hother => ?_, ?_⟩
  · rcases AList.mem_insert _ |>.1 hother with rfl | hother
    · exact hpath
    · exact h.paths other hother
  · rcases eq_or_ne suspect path with rfl | hne
    · rcases hdated rfl with hgone | heq
      · exact .inl hgone
      · refine .inr fun t ht => ?_
        rw [AList.lookup_insert] at ht
        cases ht
        exact heq
    · rw [AList.lookup_insert_ne hne]
      exact h.dated

variable (settings suspect f) in
/-- What the loop over the entries `names` makes of the files `out`. Before the
signal is sent it misses no file. -/
structure Extended (names : List String) (g : Sight) (out : GoMap Path Time)
    (out' : GoMap Path Time) (g' : Sight) : Prop where
  snapshot : Snapshot settings suspect f g' out'
  sent : g'.sent = g.sent
  gone : g.gone → g'.gone
  kept : suspect ∈ out → suspect ∈ out'
  seen : g.sent = false → ∀ name ∈ names, isReportName name = true →
    suspect = filepathJoin settings.dir name → g'.gone ∨ suspect ∈ out'

theorem Extended.cons {name : String} {names : List String} {g g₁ g' : Sight}
    {out out₁ out' : GoMap Path Time} (h : Extended settings suspect f names g₁ out₁ out' g')
    (hsent : g₁.sent = g.sent) (hgone : g.gone → g₁.gone) (hkept : suspect ∈ out → suspect ∈ out₁)
    (hseen : g.sent = false → isReportName name = true →
      suspect = filepathJoin settings.dir name → g₁.gone ∨ suspect ∈ out₁) :
    Extended settings suspect f (name :: names) g out out' g' := by
  refine ⟨h.snapshot, h.sent.trans hsent, h.gone ∘ hgone, h.kept ∘ hkept, ?_⟩
  intro hunsent other hother hreport hpath
  rcases List.mem_cons.1 hother with rfl | hother
  · exact (hseen hunsent hreport hpath).imp h.gone h.kept
  · exact h.seen (hsent.trans hunsent) other hother hreport hpath

theorem follows_addEntries (names : List String) (hnames : ∀ name ∈ names, '/' ∉ name.toList)
    {g : Sight} {out : GoMap Path Time} (hout : Snapshot settings suspect f g out) :
    (addEntries settings.dir names out).Follows (sight settings suspect f) g
      (Extended settings suspect f names g out) := by
  induction names generalizing g out with
  | nil => exact ⟨hout, rfl, id, id, fun _ name hname => by cases hname⟩
  | cons name names ih =>
    have hrest : ∀ other ∈ names, '/' ∉ other.toList := fun other hother =>
      hnames other (List.mem_cons_of_mem _ hother)
    rw [addEntries]
    split
    case isTrue hreport =>
      have hpath : IsReportPath settings (filepathJoin settings.dir name) :=
        .inl ⟨name, hnames name List.mem_cons_self, hreport, rfl⟩
      refine ⟨trivial, fun r _ => ?_⟩
      match r with
      | none =>
        apply (ih hrest (hout.mono gone_after)).mono
        intro out' g' h
        apply h.cons (Bool.or_false _) gone_after id
        intro hunsent _ heq
        exact .inl (gone_of_contradicts (heq ▸ hpath) ⟨heq.symm, hunsent⟩)
      | some modTime =>
        have hnew : filepathJoin settings.dir name = suspect →
            ((sight settings suspect f).after g (.info (filepathJoin settings.dir name))
              (some modTime)).gone ∨ modTime = f.modTime := by
          intro heq
          by_cases hsame : modTime = f.modTime
          · exact .inr hsame
          · exact .inl (gone_of_contradicts (heq ▸ hpath) ⟨heq, hsame⟩)
        apply (ih hrest ((hout.mono gone_after).insert hpath hnew)).mono
        intro out' g' h
        apply h.cons (Bool.or_false _) gone_after
        · exact fun hmem => (AList.mem_insert _).2 (.inr hmem)
        · exact fun _ _ heq => .inr ((AList.mem_insert _).2 (.inl heq))
    case isFalse hreport =>
      apply (ih hrest hout).mono
      intro out' g' h
      exact h.cons rfl id id fun _ hname => absurd hname hreport

variable (settings suspect f) in
/-- What a snapshot shows. Before the signal is sent it shows every file. -/
structure Taken (g : Sight) (out : GoMap Path Time) (g' : Sight) : Prop where
  snapshot : Snapshot settings suspect f g' out
  sent : g'.sent = g.sent
  gone : g.gone → g'.gone
  seen : g.sent = false → IsReportPath settings suspect → g'.gone ∨ suspect ∈ out

theorem snapshot_empty (g : Sight) : Snapshot settings suspect f g ∅ :=
  ⟨fun path hpath => absurd hpath (AList.notMem_empty path), .inr fun modTime h => by cases h⟩

theorem follows_directoryFiles (g : Sight) :
    (directoryFiles settings.dir).Follows (sight settings suspect f) g fun out g' =>
      Snapshot settings suspect f g' out ∧ g'.sent = g.sent ∧ (g.gone → g'.gone) ∧
        (g.sent = false → IsEntryPath settings.dir suspect → g'.gone ∨ suspect ∈ out) := by
  refine ⟨trivial, fun r hr => ?_⟩
  match r with
  | none =>
    refine ⟨snapshot_empty _, Bool.or_false _, gone_after, fun hunsent => ?_⟩
    exact absurd (hunsent.symm.trans hr) Bool.false_ne_true
  | some names =>
    apply (follows_addEntries names hr (snapshot_empty _)).mono
    intro out g' h
    refine ⟨h.snapshot, h.sent.trans (Bool.or_false _), fun hgone => h.gone (gone_after hgone), ?_⟩
    intro hunsent hentry
    by_cases hlisted : ∃ name ∈ names, isReportName name = true ∧
        suspect = filepathJoin settings.dir name
    · obtain ⟨name, hname, hreport, hpath⟩ := hlisted
      exact h.seen ((Bool.or_false _).trans hunsent) name hname hreport hpath
    · exact .inl (h.gone (gone_of_contradicts (.inl hentry) ⟨hentry, hlisted⟩))

theorem follows_addCustomPath {g : Sight} {out : GoMap Path Time}
    (hout : Snapshot settings suspect f g out) :
    (addCustomPath (nodeReportPath settings) out).Follows (sight settings suspect f) g
      fun out' g' =>
      Snapshot settings suspect f g' out' ∧ g'.sent = g.sent ∧ (g.gone → g'.gone) ∧
        (suspect ∈ out → suspect ∈ out') ∧
        (g.sent = false → suspect ≠ "" → suspect = nodeReportPath settings →
          g'.gone ∨ suspect ∈ out') := by
  rw [addCustomPath]
  split
  case isTrue hnone =>
    exact ⟨hout, rfl, id, id, fun _ hne heq => absurd (heq.trans hnone) hne⟩
  case isFalse hsome =>
    have hpath : IsReportPath settings (nodeReportPath settings) := .inr ⟨hsome, rfl⟩
    rw [ask_bind]
    refine ⟨trivial, fun r _ => ?_⟩
    match r with
    | none =>
      refine ⟨hout.mono gone_after, Bool.or_false _, gone_after, id, fun hunsent _ heq => ?_⟩
      exact .inl (gone_of_contradicts (heq ▸ hpath) ⟨heq.symm, hunsent⟩)
    | some info =>
      have hinfo : nodeReportPath settings = suspect →
          ((sight settings suspect f).after g (.stat (nodeReportPath settings)) (some info)).gone ∨
            info = ⟨false, f.modTime, f.size⟩ := by
        intro heq
        by_cases hsame : info = ⟨false, f.modTime, f.size⟩
        · exact .inr hsame
        · exact .inl (gone_of_contradicts (heq ▸ hpath) ⟨heq, hsame⟩)
      simp only [Prog.pure_eq]
      split
      case isTrue hdir =>
        refine ⟨hout.mono gone_after, Bool.or_false _, gone_after, id, fun _ _ heq => ?_⟩
        refine .inl ((hinfo heq.symm).resolve_right fun hsame => ?_)
        rw [hsame] at hdir
        cases hdir
      case isFalse =>
        refine ⟨(hout.mono gone_after).insert hpath fun heq => ?_, Bool.or_false _, gone_after,
          fun hmem => ?_, fun _ _ heq => ?_⟩
        · exact (hinfo heq).imp_right (congrArg FileStat.modTime)
        · exact (AList.mem_insert _).2 (.inr hmem)
        · exact .inr ((AList.mem_insert _).2 (.inl heq))

theorem follows_nodeReportFiles (g : Sight) :
    (nodeReportFiles settings).Follows (sight settings suspect f) g
      (Taken settings suspect f g) := by
  rw [nodeReportFiles, Prog.follows_bind]
  apply (follows_directoryFiles g).mono
  rintro out g₁ ⟨hout, hsent, hgone, hlisted⟩
  apply (follows_addCustomPath hout).mono
  rintro out' g' ⟨hout', hsent', hgone', hkept, hcustom⟩
  refine ⟨hout', hsent'.trans hsent, hgone' ∘ hgone, fun hunsent hpath => ?_⟩
  rcases hpath with hentry | ⟨hne, hpath⟩
  · exact (hlisted hunsent hentry).imp hgone' hkept
  · exact hcustom (hsent.trans hunsent) hne hpath

/-- A suspect that the first snapshot showed as it is now is not taken for fresh. -/
theorem fresh_eq_false {before : GoMap Path Time} {sentAt : Time}
    (hbefore : before.lookup suspect = some f.modTime) (hsentAt : f.modTime ≤ sentAt) :
    fresh before sentAt suspect f.modTime = false := by
  simp [fresh, hbefore, Int.not_lt.2 hsentAt]

theorem follows_keeps {α : Type} (p : SignalProg α) (g : Sight) :
    p.Follows (sight settings suspect f) g fun _ g' => g.gone → g'.gone := by
  induction p generalizing g with
  | done a => exact id
  | act op next ih =>
    refine ⟨trivial, fun r _ => ?_⟩
    apply (ih r _).mono
    intro _ g' hgone
    exact hgone ∘ gone_after

variable (settings suspect) in
def NotSuspect (path : Path) (g : Sight) : Prop :=
  IsReportPath settings path ∧ (path = suspect → g.gone)

theorem follows_pollFiles {before files : GoMap Path Time} {sentAt : Time} (order : List Path)
    {g : Sight} (hfiles : Snapshot settings suspect f g files)
    (hstale : IsReportPath settings suspect →
      g.gone ∨ fresh before sentAt suspect f.modTime = false) :
    (pollFiles before files sentAt order).Follows (sight settings suspect f) g fun found g' =>
      (g.gone → g'.gone) ∧ ∀ path, found = some path → NotSuspect settings suspect path g' := by
  induction order generalizing g with
  | nil => exact ⟨id, fun path hfound => by cases hfound⟩
  | cons path order ih =>
    rw [pollFiles]
    split
    case h_1 => exact ih hfiles hstale
    case h_2 modTime hlookup =>
      split
      case isFalse => exact ih hfiles hstale
      case isTrue hfresh =>
        have hpath : IsReportPath settings path :=
          hfiles.paths path (AList.lookup_isSome.1 (by simp [hlookup]))
        have hgone : path = suspect → g.gone := by
          rintro rfl
          rcases hfiles.dated with hgone | hdated
          · exact hgone
          · rw [hdated modTime hlookup] at hfresh
            exact (hstale hpath).resolve_right (by simp [hfresh])
        rw [Prog.follows_bind]
        apply (follows_keeps (nodeFileStable path) g).mono
        intro stable g₁ hkeeps
        cases stable with
        | true =>
          refine ⟨hkeeps, fun found hfound => ?_⟩
          cases hfound
          exact ⟨hpath, hkeeps ∘ hgone⟩
        | false =>
          apply (ih (hfiles.mono hkeeps) fun hsuspect => (hstale hsuspect).imp_left hkeeps).mono
          intro found g' h
          exact ⟨h.1 ∘ hkeeps, h.2⟩

theorem follows_poll {pid : Pid} {timeout : String} {before : GoMap Path Time} {sentAt : Time}
    (rounds : Nat) {g : Sight}
    (hstale : IsReportPath settings suspect →
      g.gone ∨ fresh before sentAt suspect f.modTime = false) :
    (poll pid timeout settings before sentAt rounds).Follows (sight settings suspect f) g
      fun result g' => ∀ path, result = .ok path → NotSuspect settings suspect path g' := by
  induction rounds generalizing g with
  | zero =>
    intro path hresult
    cases hresult
  | succ rounds ih =>
    rw [poll, Prog.follows_bind]
    apply (follows_nodeReportFiles g).mono
    intro files g₁ htaken
    refine ⟨trivial, fun order _ => ?_⟩
    have hstale₁ : IsReportPath settings suspect →
        ((sight settings suspect f).after g₁ (.range files) order).gone ∨
          fresh before sentAt suspect f.modTime = false := fun hpath =>
      (hstale hpath).imp_left fun hgone => gone_after (htaken.gone hgone)
    change ((pollFiles before files sentAt order) >>= _).Follows _ _ _
    rw [Prog.follows_bind]
    apply (follows_pollFiles order (htaken.snapshot.mono gone_after) hstale₁).mono
    rintro found g₂ ⟨hkeeps, hfound⟩
    match found with
    | some path =>
      intro other hother
      cases hother
      exact hfound path rfl
    | none =>
      refine ⟨trivial, fun alive _ => ?_⟩
      match alive with
      | true =>
        exact ih fun hpath => (hstale₁ hpath).imp_left fun hgone => gone_after (hkeeps hgone)
      | false =>
        intro path hresult
        cases hresult

/-- With the first snapshot and the time of the signal, the suspect is known to be
stale, or to be gone. -/
theorem Taken.stale {g g' : Sight} {before : GoMap Path Time} {sentAt : Time}
    (h : Taken settings suspect f g before g') (hunsent : g.sent = false)
    (hpath : IsReportPath settings suspect) :
    ((sight settings suspect f).after g' .now sentAt).gone ∨
      fresh before sentAt suspect f.modTime = false := by
  rcases h.seen hunsent hpath with hgone | hmem
  · exact .inl (gone_after hgone)
  · rcases h.snapshot.dated with hgone | hdated
    · exact .inl (gone_after hgone)
    · obtain ⟨modTime, hlookup⟩ := Option.isSome_iff_exists.1 (AList.lookup_isSome.2 hmem)
      rw [hdated modTime hlookup] at hlookup
      rcases lt_or_ge sentAt f.modTime with hlt | hge
      · exact .inl (gone_of_contradicts hpath hlt)
      · exact .inr (fresh_eq_false hlookup hge)

theorem follows_capture (pid : Pid) (signalName timeout : String) (signal : Except IOError Unit)
    (rounds : Nat) :
    (nodeSignalReportCapture pid signalName timeout signal settings rounds).Follows
      (sight settings suspect f) ⟨False, false⟩
      fun result g => ∀ path, result = .ok path → NotSuspect settings suspect path g := by
  match signal with
  | .error err =>
    intro path hresult
    cases hresult
  | .ok () =>
    refine ⟨trivial, fun alive _ => ?_⟩
    match alive with
    | false =>
      intro path hresult
      cases hresult
    | true =>
      change (nodeReportFiles settings >>= _).Follows _ _ _
      rw [Prog.follows_bind]
      apply (follows_nodeReportFiles _).mono
      intro before g htaken
      refine ⟨trivial, fun sentAt _ => ⟨trivial, fun err _ => ?_⟩⟩
      match err with
      | some err =>
        intro path hresult
        cases hresult
      | none =>
        apply follows_poll rounds
        intro hpath
        exact (htaken.stale rfl hpath).imp_left gone_after

end Suspect

/-- If nobody but the target writes report files from the first snapshot on, the
calls of the first snapshot do not fail and no report of another process is
dated after the signal, then the report that is returned is the target's. -/
theorem report_of_target {pid : Pid} {signalName timeout : String} {signal : Except IOError Unit}
    {settings : NodeReportSettings} {rounds : Nat} {w w' : World}
    {trace : Trace SignalOp SignalOp.Reply World} {path : Path} {f : ReportFile}
    (hstart : w.sent = false)
    (hsteps : Steps (ownWriters pid settings)
      (nodeSignalReportCapture pid signalName timeout signal settings rounds) w trace
      (.done (.ok path)) w')
    (hfile : w'.file path = some f) : f.writer = pid := by
  by_contra hwriter
  have hview : view settings path f w ⟨False, false⟩ := ⟨False.elim, hstart⟩
  obtain ⟨-, hend, hresult⟩ := hsteps.of_follows (sight_describes hwriter)
    (follows_capture pid signalName timeout signal rounds) hview
  exact (hend.1 ((hresult _ rfl path rfl).2 rfl)).2 hfile

def sharedDirectory : NodeReportSettings := ⟨"/srv/app", ""⟩

def noReports (sent : Bool) : World := ⟨fun _ => none, sent⟩

def oneReport (path : Path) (writer : Pid) : World :=
  ⟨fun other => if other = path then some ⟨2, 100, writer⟩ else none, true⟩

theorem oneReport_file (path : Path) (writer : Pid) :
    (oneReport path writer).file path = some ⟨2, 100, writer⟩ := if_pos rfl

section OneReport

variable {sem : Semantics SignalOp SignalOp.Reply World} {name : String} {path : Path}
    {writer : Pid}
variable (hperform : ∀ op w r w', Perform op w r w' → Dated 4000 sharedDirectory op w r →
  sem.perform op w r w')

include hperform in
private theorem comes_ask {α : Type} {w w' : World} {a : α} (op : SignalOp)
    {k : op.Reply → SignalProg α} (r : op.Reply) (hanswers : Answers op w r)
    (hdated : Dated 4000 sharedDirectory op w r)
    (hkeeps : sends op r = false) (hnext : Comes sem (k r) w a w') :
    Comes sem (ask op >>= k) w a w' := by
  refine .act .refl (hperform op w r w ⟨hanswers, ?_⟩ hdated) hnext
  rw [hkeeps, Bool.or_false]

include hperform in
private theorem comes_noReports {sent : Bool} :
    Comes sem (nodeReportFiles sharedDirectory) (noReports sent) ∅ (noReports sent) := by
  have hlisted : Comes sem (directoryFiles sharedDirectory.dir) (noReports sent) ∅
      (noReports sent) := by
    apply comes_ask hperform (.readDir sharedDirectory.dir) (some [])
    · exact ⟨fun _ hname => absurd hname List.not_mem_nil, fun _ _ hfile => absurd rfl hfile⟩
    · trivial
    · rfl
    · exact .done _
  exact hlisted.bind (.done _)

variable (hname : isReportName name = true) (hslash : '/' ∉ name.toList)
  (hpath : path = filepathJoin sharedDirectory.dir name)

include hperform hname hslash hpath in
private theorem comes_oneReport :
    Comes sem (nodeReportFiles sharedDirectory) (oneReport path writer)
      (AList.insert path 2 ∅) (oneReport path writer) := by
  subst hpath
  have hlisted : Comes sem (directoryFiles sharedDirectory.dir)
      (oneReport (filepathJoin sharedDirectory.dir name) writer)
      (AList.insert (filepathJoin sharedDirectory.dir name) 2 ∅)
      (oneReport (filepathJoin sharedDirectory.dir name) writer) := by
    apply comes_ask hperform (.readDir sharedDirectory.dir) (some [name])
    · refine ⟨fun other hother => ?_, fun other _ hfile => ?_⟩
      · rw [List.mem_singleton.1 hother]
        exact hslash
      · refine ⟨name, List.mem_singleton_self name, hname, ?_⟩
        by_contra hne
        exact hfile (if_neg hne)
    · trivial
    · rfl
    · simp only [addEntries, hname, if_true]
      apply comes_ask hperform (.info _) (some 2)
      · intro f hf
        rw [oneReport_file] at hf
        cases hf
        rfl
      · trivial
      · rfl
      · exact .done _
  exact hlisted.bind (.done _)

include hperform in
private theorem comes_stable :
    Comes sem (nodeFileStable path) (oneReport path writer) true (oneReport path writer) := by
  have hstat : Answers (.stat path) (oneReport path writer) (some ⟨false, 2, 100⟩) := by
    simp only [Answers, oneReport_file]
  apply comes_ask hperform (.stat path) (some ⟨false, 2, 100⟩) hstat trivial rfl
  apply comes_ask hperform (.stat path) (some ⟨false, 2, 100⟩) hstat trivial rfl
  exact .done _

include hperform hname hslash hpath in
/-- The directory is empty when the signal is sent, and then someone writes a
report into it. -/
private theorem comes_returned (hwrite : sem.interfere (noReports true) (oneReport path writer)) :
    Comes sem (nodeSignalReportCapture 4000 "SIGUSR2" "30s" (.ok ()) sharedDirectory 1)
      (noReports false) (.ok path) (oneReport path writer) := by
  apply comes_ask hperform .isProcessExists true trivial trivial rfl
  apply Comes.bind (comes_noReports hperform)
  apply comes_ask hperform .now (1 : Time) trivial
  · intro other f _ hfile
    cases hfile
  · rfl
  refine Comes.act .refl (hperform .kill _ none (noReports true) ⟨trivial, rfl⟩ trivial) ?_
  apply Comes.after (.single hwrite)
  apply Comes.bind (comes_oneReport hperform hname hslash hpath)
  apply comes_ask hperform (.range (AList.insert path 2 ∅)) [path] (.refl _) trivial rfl
  have hfound : Comes sem (pollFiles ∅ (AList.insert path 2 ∅) 1 [path]) (oneReport path writer)
      (some path) (oneReport path writer) := by
    simp only [pollFiles, AList.lookup_insert]
    exact (comes_stable hperform).bind (.done _)
  exact hfound.bind (.done _)

end OneReport

theorem own_report_returned : ∃ trace w',
    Steps (ownWriters 4000 sharedDirectory)
      (nodeSignalReportCapture 4000 "SIGUSR2" "30s" (.ok ()) sharedDirectory 1) (noReports false)
      trace (.done (.ok "/srv/app/report.json")) w' ∧
    ∃ f, w'.file "/srv/app/report.json" = some f ∧ f.writer = 4000 := by
  have hname : isReportName "report.json" = true := by decide
  have hwrite : (ownWriters 4000 sharedDirectory).interfere (noReports true)
      (oneReport "/srv/app/report.json" 4000) := by
    refine ⟨rfl, fun path _ => ?_⟩
    rcases eq_or_ne path "/srv/app/report.json" with rfl | hne
    · exact .inr (.inr ⟨_, oneReport_file _ _, rfl⟩)
    · exact .inl (if_neg hne)
  obtain ⟨trace, hsteps⟩ := comes_returned
    (fun _ _ _ _ h hdated => And.intro h hdated) hname (by decide) (by decide) hwrite
  have hfile := oneReport_file "/srv/app/report.json" 4000
  exact ⟨trace, _, hsteps, _, hfile, report_of_target rfl hsteps hfile⟩

theorem other_report_returned : ∃ trace w',
    Steps anyWriters
      (nodeSignalReportCapture 4000 "SIGUSR2" "30s" (.ok ()) sharedDirectory 1) (noReports false)
      trace (.done (.ok "/srv/app/report.json")) w' ∧
    ∃ f, w'.file "/srv/app/report.json" = some f ∧ f.writer = 5000 := by
  have hname : isReportName "report.json" = true := by decide
  have hwrite : anyWriters.interfere (noReports true) (oneReport "/srv/app/report.json" 5000) := rfl
  obtain ⟨trace, hsteps⟩ :=
    comes_returned (fun _ _ _ _ h _ => h) hname (by decide) (by decide) hwrite
  exact ⟨trace, _, hsteps, _, oneReport_file _ _, rfl⟩

end YcAgent.Capture.NodeSignal
