import YcAgent.Go.Filepath
import YcAgent.Go.Stream
import YcAgent.Lib.Program

/-!
`CompressFolder`: a folder packed into a zstd-compressed tar file. The archive
is kept as what its writers have put into it: the members with the data that
has reached them, the tar trailer, the end of the zstd frame, and whether the
file was closed without an error. A step that fails has not written what it
was to write.
-/

namespace YcAgent.Ondemand

open Go Lib.Program

inductive Kind where
  | directory | regular | other
  deriving DecidableEq, Repr

/-- What `Walk` finds below a folder, by its path relative to the folder. -/
structure Entry where
  rel : String
  kind : Kind
  content : Bytes
  deriving DecidableEq, Repr

/-- The bytes a tar member of the entry holds: only regular files have any. -/
def Entry.data (e : Entry) : Bytes := if e.kind = .regular then e.content else []

/-- A folder: its entries in the order of `Walk`, each path once. -/
structure Listing where
  entries : List Entry
  nodup : entries.Nodup

def Listing.empty : Listing := ⟨[], .nil⟩

structure Member where
  name : String
  kind : Kind
  size : Nat
  data : Bytes
  deriving DecidableEq, Repr

def Entry.member (base : String) (e : Entry) : Member :=
  ⟨joinPath base e.rel, e.kind, e.data.length, e.data⟩

/-- The writers a finished archive has to close, one on top of the other. -/
inductive Writer where
  | tar | enc | out
  deriving DecidableEq, Repr

structure Archive where
  members : List Member
  broken : Bool
  trailer : Bool
  frameEnd : Bool
  stored : Bool
  deriving DecidableEq, Repr

namespace Archive

def empty : Archive := ⟨[], false, false, false, false⟩

/-- The last member has all the bytes its header announces. -/
def Settled (a : Archive) : Prop := ∀ m ∈ a.members.getLast?, m.data.length = m.size

instance (a : Archive) : Decidable a.Settled :=
  inferInstanceAs (Decidable (∀ m ∈ a.members.getLast?, m.data.length = m.size))

def startMember (base : String) (e : Entry) (a : Archive) : Archive :=
  { a with members := a.members ++ [⟨joinPath base e.rel, e.kind, e.data.length, []⟩] }

def setLastData (a : Archive) (data : Bytes) : Archive :=
  { a with
    members := a.members.dropLast ++ a.members.getLast?.toList.map ({ · with data := data }) }

/-- What closing a writer adds: the tar trailer, the end of the zstd frame, the
last bytes of the file. -/
def close (a : Archive) : Writer → Archive
  | .tar => { a with trailer := true }
  | .enc => { a with frameEnd := true }
  | .out => { a with stored := true }

/-- The archive after a writer was closed, or failed to be. -/
def closeIf (ok : Bool) (writer : Writer) (a : Archive) : Archive :=
  if ok then a.close writer else a

@[simp] theorem closeIf_members (ok : Bool) (writer : Writer) (a : Archive) :
    (a.closeIf ok writer).members = a.members := by
  cases ok <;> cases writer <;> rfl

@[simp] theorem closeIf_trailer (ok : Bool) (writer : Writer) (a : Archive) :
    (a.closeIf ok writer).trailer = (a.trailer || (ok && writer == .tar)) := by
  cases ok <;> cases writer <;> simp [closeIf, close]

@[simp] theorem closeIf_frameEnd (ok : Bool) (writer : Writer) (a : Archive) :
    (a.closeIf ok writer).frameEnd = (a.frameEnd || (ok && writer == .enc)) := by
  cases ok <;> cases writer <;> simp [closeIf, close]

@[simp] theorem closeIf_stored (ok : Bool) (writer : Writer) (a : Archive) :
    (a.closeIf ok writer).stored = (a.stored || (ok && writer == .out)) := by
  cases ok <;> cases writer <;> simp [closeIf, close]

/-- The members of a file that decompresses and unpacks to its end. -/
def decode (a : Archive) : Option (List Member) :=
  if a.trailer && a.frameEnd && a.stored then some a.members else none

end Archive

structure World where
  cwd : String
  dirs : String → Option Listing
  archives : String → Option Archive

def World.setArchive (w : World) (out : String) (a : Archive) : World :=
  { w with archives := Function.update w.archives out (some a) }

def World.setDir (w : World) (dir : String) (listing : Option Listing) : World :=
  { w with dirs := Function.update w.dirs dir listing }

abbrev Err := String

/-- `capture` stands for all that is captured between entering the directory
and leaving it. -/
inductive Op where
  | mkdir (p : FilePath)
  | getwd
  | chdir (p : FilePath)
  | capture
  | removeAll (p : FilePath)
  | stat (p : FilePath)
  | create (p : FilePath)
  | newWriter
  | abs (p : FilePath)
  | walk (p : FilePath)
  | visit (e : Entry)
  | absEntry (e : Entry)
  | relEntry (e : Entry)
  | fileInfoHeader (e : Entry)
  | writeHeader (out base : String) (e : Entry)
  | openFile (e : Entry)
  | copy (out : String) (e : Entry)
  | closeFile (e : Entry)
  | close (writer : Writer) (out : String)

/-- `stat` answers whether the path is a directory, `create` and `abs` the file
their path names, and `walk` the entries it is going to visit. -/
def Op.Reply : Op → Type
  | .getwd => Except Err FilePath
  | .capture => Unit
  | .stat _ => Except Err Bool
  | .create _ => Except Err String
  | .abs _ => Except Err String
  | .walk _ => List Entry
  | _ => Except Err Unit

abbrev FsProg := Prog Op Op.Reply
abbrev FsTrace := Trace Op Op.Reply World

def ask (op : Op) : FsProg op.Reply := .perform op

@[simp] theorem ask_bind {α : Type} (op : Op) (k : op.Reply → FsProg α) :
    (ask op >>= k) = .act op k := rfl

/-- The function `Walk` calls for an entry, from the tar header on. -/
def packMember (out base : String) (e : Entry) : FsProg (Except Err Unit) := do
  match ← ask (.writeHeader out base e) with
  | .error err => return .error s!"write header for {joinPath base e.rel}: {err}"
  | .ok () =>
  if e.kind ≠ .regular then return .ok () else
  match ← ask (.openFile e) with
  | .error err => return .error err
  | .ok () =>
  let copied ← ask (.copy out e)
  let closed ← ask (.closeFile e)
  match copied with
  | .error err => return .error s!"copy {joinPath base e.rel}: {err}"
  | .ok () => return closed

def packEntry (out base : String) (e : Entry) : FsProg (Except Err Unit) := do
  match ← ask (.visit e) with
  | .error err => return .error err
  | .ok () =>
  if e.kind = .directory then return .ok () else
  match ← ask (.absEntry e) with
  | .error err => return .error err
  | .ok () =>
  match ← ask (.relEntry e) with
  | .error err => return .error err
  | .ok () =>
  match ← ask (.fileInfoHeader e) with
  | .error err => return .error err
  | .ok () => packMember out base e

def walkEntries (out base : String) : List Entry → FsProg (Except Err Unit)
  | [] => return .ok ()
  | e :: rest => do
    match ← packEntry out base e with
    | .error err => return .error err
    | .ok () => walkEntries out base rest

/-- The body of `compressFolderWithZst` from the tar writer on. -/
def packFolder (out : String) (folder : FilePath) : FsProg (Except Err Unit) := do
  match ← ask (.abs folder) with
  | .error err => return .error err
  | .ok absFolderPath =>
    let entries ← ask (.walk folder)
    walkEntries out (filepathBase absFolderPath) entries

/-- The body from the encoder on; the writers are closed by deferred calls,
whose errors are dropped. -/
def writeArchive (out : String) (folder : FilePath) : FsProg (Except Err Unit) := do
  match ← ask .newWriter with
  | .error err => return .error err
  | .ok () =>
    let packed ← packFolder out folder
    let _ ← ask (.close .tar out)
    let _ ← ask (.close .enc out)
    return packed

def zstName (folder : FilePath) : FilePath := { folder with text := folder.text ++ ".zst" }

def compressFolder (folder : FilePath) : FsProg (Except Err FilePath) := do
  match ← ask (.stat folder) with
  | .error err => return .error err
  | .ok isDir =>
  if !isDir then return .error s!"input is not a valid directory: {folder.text}" else
  match ← ask (.create (zstName folder)) with
  | .error err => return .error err
  | .ok out =>
    let written ← writeArchive out folder
    let _ ← ask (.close .out out)
    return written.map fun _ => zstName folder

/-- What an operation may answer, and what it does to the world then. A failed
header or copy may leave the tar writer in its error state; a failed copy stops
short of the end of the file; the trailer is not written after either. -/
def Perform : (op : Op) → World → op.Reply → World → Prop
  | .mkdir p, w, .ok (), w' => w.dirs (p.resolve w.cwd) = none ∧
      w' = w.setDir (p.resolve w.cwd) (some .empty)
  | .mkdir _, w, .error _, w' => w' = w
  | .getwd, w, r, w' => w' = w ∧ ∀ dir, r = .ok dir → dir = ⟨true, w.cwd⟩
  | .chdir p, w, .ok (), w' => w' = { w with cwd := p.resolve w.cwd }
  | .chdir _, w, .error _, w' => w' = w
  | .capture, w, _, w' => w'.cwd = w.cwd ∧ w'.archives = w.archives ∧
      ∀ dir, (w.dirs dir).isSome → (w'.dirs dir).isSome
  | .removeAll p, w, .ok (), w' => w' = w.setDir (p.resolve w.cwd) none
  | .removeAll _, w, .error _, w' => w'.cwd = w.cwd ∧ w'.archives = w.archives ∧
      ∀ dir, (w'.dirs dir).isSome = (w.dirs dir).isSome
  | .stat p, w, r, w' => w' = w ∧
      ∀ isDir, r = .ok isDir → isDir = (w.dirs (p.resolve w.cwd)).isSome
  | .create p, w, .ok out, w' => out = p.resolve w.cwd ∧ w' = w.setArchive out .empty
  | .create _, w, .error _, w' => w' = w
  | .newWriter, w, _, w' => w' = w
  | .abs p, w, r, w' => w' = w ∧ ∀ path, r = .ok path → path = p.resolve w.cwd
  | .walk p, w, r, w' => w' = w ∧
      ∀ listing, w.dirs (p.resolve w.cwd) = some listing → r = listing.entries
  | .visit _, w, _, w' => w' = w
  | .absEntry _, w, _, w' => w' = w
  | .relEntry _, w, _, w' => w' = w
  | .fileInfoHeader _, w, _, w' => w' = w
  | .openFile _, w, _, w' => w' = w
  | .closeFile _, w, _, w' => w' = w
  | .writeHeader out base e, w, .ok (), w' => ∃ a, w.archives out = some a ∧ a.broken = false ∧
      a.Settled ∧ w' = w.setArchive out (a.startMember base e)
  | .writeHeader out _ _, w, .error _, w' => ∃ a broken, w.archives out = some a ∧
      w' = w.setArchive out { a with broken := broken }
  | .copy out e, w, .ok (), w' => ∃ a, w.archives out = some a ∧
      w' = w.setArchive out (a.setLastData e.data)
  | .copy out e, w, .error _, w' => ∃ a broken part, w.archives out = some a ∧ part <+: e.data ∧
      (e.data = [] ∨ part ≠ e.data) ∧
      w' = w.setArchive out { a.setLastData part with broken := broken }
  | .close writer out, w, .ok (), w' => ∃ a, w.archives out = some a ∧
      (writer = .tar → a.broken = false ∧ a.Settled) ∧ w' = w.setArchive out (a.close writer)
  | .close _ _, w, .error _, w' => w' = w

def headersDone (trace : FsTrace) : List Entry :=
  trace.filterMap fun
    | ⟨_, .writeHeader _ _ e, .ok ()⟩ => some e
    | _ => none

def copiesDone (trace : FsTrace) : List Entry :=
  trace.filterMap fun
    | ⟨_, .copy _ e, .ok ()⟩ => some e
    | _ => none

def closesDone (trace : FsTrace) : List Writer :=
  trace.filterMap fun
    | ⟨_, .close writer _, .ok ()⟩ => some writer
    | _ => none

/-- How much of `entries` has been packed: a first part of them completely, or
the last member is short of data. -/
inductive Packed (base : String) (a : Archive) (entries : List Entry) (trace : FsTrace)
    (r : Except Err Unit) (a' : Archive) : Prop
  | upTo (done rest : List Entry) :
      entries = done ++ rest →
      a'.members = a.members ++ (done.filter (·.kind ≠ .directory)).map (Entry.member base) →
      a'.Settled →
      (∀ e ∈ done, e.kind = .regular →
        e ∈ headersDone trace ∧ (e.content = [] ∨ e ∈ copiesDone trace)) →
      (∀ e ∈ headersDone trace, e ∈ done) →
      (r = .ok () → rest = []) → Packed base a entries trace r a'
  | short (err : Err) : ¬ a'.Settled → r = .error err → Packed base a entries trace r a'

theorem World.archives_setArchive (w : World) (out : String) (a : Archive) :
    (w.setArchive out a).archives out = some a := Function.update_self _ _ _

/-- The parts of a world the packing leaves alone. -/
structure SameElse (out : String) (a a' : Archive) (w w' : World) : Prop where
  archive : w'.archives out = some a'
  cwd : w'.cwd = w.cwd
  dirs : w'.dirs = w.dirs
  trailer : a'.trailer = a.trailer
  frameEnd : a'.frameEnd = a.frameEnd
  stored : a'.stored = a.stored

theorem SameElse.refl {out : String} {a : Archive} {w : World} (h : w.archives out = some a) :
    SameElse out a a w w := ⟨h, rfl, rfl, rfl, rfl, rfl⟩

theorem SameElse.setArchive {out : String} {a a' : Archive} {w : World}
    (htrailer : a'.trailer = a.trailer) (hframe : a'.frameEnd = a.frameEnd)
    (hstored : a'.stored = a.stored) : SameElse out a a' w (w.setArchive out a') where
  archive := World.archives_setArchive _ _ _
  cwd := rfl
  dirs := rfl
  trailer := htrailer
  frameEnd := hframe
  stored := hstored

theorem SameElse.trans {out : String} {a₁ a₂ a₃ : Archive} {w₁ w₂ w₃ : World}
    (h₁ : SameElse out a₁ a₂ w₁ w₂) (h₂ : SameElse out a₂ a₃ w₂ w₃) :
    SameElse out a₁ a₃ w₁ w₃ where
  archive := h₂.archive
  cwd := h₂.cwd.trans h₁.cwd
  dirs := h₂.dirs.trans h₁.dirs
  trailer := h₂.trailer.trans h₁.trailer
  frameEnd := h₂.frameEnd.trans h₁.frameEnd
  stored := h₂.stored.trans h₁.stored

theorem Archive.settled_concat {a : Archive} {members : List Member} {m : Member}
    (h : a.members = members ++ [m]) : a.Settled ↔ m.data.length = m.size := by
  simp [Settled, h]

theorem Archive.members_startMember_setLastData (a : Archive) (base : String) (e : Entry)
    (data : Bytes) : ((a.startMember base e).setLastData data).members = a.members ++
      [⟨joinPath base e.rel, e.kind, e.data.length, data⟩] := by
  simp [startMember, setLastData]

@[simp] theorem headersDone_append (first second : FsTrace) :
    headersDone (first ++ second) = headersDone first ++ headersDone second :=
  List.filterMap_append

@[simp] theorem closesDone_append (first second : FsTrace) :
    closesDone (first ++ second) = closesDone first ++ closesDone second :=
  List.filterMap_append

@[simp] theorem copiesDone_append (first second : FsTrace) :
    copiesDone (first ++ second) = copiesDone first ++ copiesDone second :=
  List.filterMap_append

theorem Packed.stopped {base : String} {a a' : Archive} {e : Entry} {trace : FsTrace} {err : Err}
    (hmembers : a'.members = a.members) (hsettled : a'.Settled) (hnone : headersDone trace = []) :
    Packed base a [e] trace (.error err) a' := by
  refine .upTo [] [e] rfl ?_ hsettled ?_ ?_ ?_
  · simp [hmembers]
  · intro e' he'
    cases he'
  · intro e' he'
    rw [hnone] at he'
    cases he'
  · rintro ⟨⟩

theorem Packed.one {base : String} {a a' : Archive} {e : Entry} {trace : FsTrace}
    {r : Except Err Unit} (hkind : e.kind ≠ .directory)
    (hmembers : a'.members = a.members ++ [e.member base]) (hheaders : headersDone trace = [e])
    (hcopied : e.kind = .regular → e.content = [] ∨ e ∈ copiesDone trace) :
    Packed base a [e] trace r a' := by
  refine .upTo [e] [] rfl ?_ ?_ ?_ ?_ fun _ => rfl
  · simp [hmembers, hkind]
  · exact (Archive.settled_concat hmembers).mpr rfl
  · intro e' he' hregular
    obtain rfl := List.mem_singleton.mp he'
    exact ⟨by simp [hheaders], hcopied hregular⟩
  · intro e' he'
    rwa [hheaders] at he'

theorem Packed.cut {base : String} {a a' : Archive} {e : Entry} {trace : FsTrace} {err : Err}
    {data : Bytes} (hmembers : a'.members = a.members ++
      [⟨joinPath base e.rel, e.kind, e.data.length, data⟩])
    (hshort : data.length ≠ e.data.length) : Packed base a [e] trace (.error err) a' := by
  refine .short err ?_ rfl
  rw [Archive.settled_concat hmembers]
  exact hshort

theorem Packed.of_same {base : String} {a a' : Archive} {entries : List Entry}
    {trace trace' : FsTrace} {r : Except Err Unit} (h : Packed base a entries trace r a')
    (hheaders : headersDone trace' = headersDone trace)
    (hcopies : copiesDone trace' = copiesDone trace) : Packed base a entries trace' r a' := by
  cases h with
  | upTo done rest hsplit hmembers hsettled hstored hdone hend =>
    refine .upTo done rest hsplit hmembers hsettled ?_ ?_ hend
    · rwa [hheaders, hcopies]
    · rwa [hheaders]
  | short err hshort herror => exact .short err hshort herror

theorem packMember_packed {out base : String} {e : Entry} {w w' : World} {trace : FsTrace}
    {r : Except Err Unit} {a : Archive}
    (hrun : Runs Perform (packMember out base e) w trace r w')
    (harchive : w.archives out = some a) (hsettled : a.Settled) (hkind : e.kind ≠ .directory) :
    ∃ a', SameElse out a a' w w' ∧ closesDone trace = [] ∧ Packed base a [e] trace r a' := by
  simp only [packMember, ask_bind] at hrun
  obtain ⟨header, w₁, t₁, hheader, rfl, h₁⟩ := hrun.of_act
  cases header with
  | error err =>
    obtain ⟨a₀, broken, ha₀, rfl⟩ := hheader
    obtain rfl : a₀ = a := Option.some.inj (ha₀.symm.trans harchive)
    obtain ⟨rfl, rfl, rfl⟩ := h₁.of_done
    exact ⟨_, .setArchive rfl rfl rfl, rfl,
      .stopped rfl hsettled rfl⟩
  | ok _ =>
  obtain ⟨a₀, ha₀, _, _, rfl⟩ := hheader
  obtain rfl : a₀ = a := Option.some.inj (ha₀.symm.trans harchive)
  have hsame₁ : SameElse out a₀ (a₀.startMember base e) w
      (w.setArchive out (a₀.startMember base e)) := .setArchive rfl rfl rfl
  by_cases hregular : e.kind = .regular
  · have hdata : e.data = e.content := if_pos hregular
    dsimp only at h₁
    rw [if_neg (not_not.mpr hregular)] at h₁
    obtain ⟨opened, _, t₂, hopen, rfl, h₂⟩ := h₁.of_act
    cases hopen
    cases opened with
    | error err =>
      obtain ⟨rfl, rfl, rfl⟩ := h₂.of_done
      refine ⟨_, hsame₁, rfl, ?_⟩
      by_cases hempty : e.content = []
      · refine .one hkind ?_ rfl fun _ => .inl hempty
        simp [Archive.startMember, Entry.member, hdata, hempty]
      · refine .cut rfl ?_
        simpa [hdata, eq_comm] using hempty
    | ok _ =>
    obtain ⟨copied, w₃, t₃, hcopy, rfl, h₃⟩ := h₂.of_act
    obtain ⟨closed, _, t₄, hclose, rfl, h₄⟩ := h₃.of_act
    cases hclose
    cases copied with
    | error err =>
      obtain ⟨a₁, broken, part, ha₁, hpart, hstrict, rfl⟩ := hcopy
      obtain rfl := Option.some.inj (ha₁.symm.trans hsame₁.archive)
      obtain ⟨rfl, rfl, rfl⟩ := h₄.of_done
      refine ⟨_, hsame₁.trans (.setArchive rfl rfl rfl), rfl, ?_⟩
      have hmembers := a₀.members_startMember_setLastData base e part
      rcases hstrict with hempty | hne
      · obtain rfl : part = [] := by
          rw [hempty] at hpart
          exact List.prefix_nil.mp hpart
        refine .one hkind ?_ rfl fun _ => .inl (hdata.symm.trans hempty)
        exact hmembers.trans (by simp [Entry.member, hempty])
      · refine .cut hmembers ?_
        intro hlength
        exact hne (hpart.eq_of_length hlength)
    | ok _ =>
      obtain ⟨a₁, ha₁, rfl⟩ := hcopy
      obtain rfl := Option.some.inj (ha₁.symm.trans hsame₁.archive)
      obtain ⟨rfl, rfl, rfl⟩ := h₄.of_done
      refine ⟨_, hsame₁.trans (.setArchive rfl rfl rfl), rfl, ?_⟩
      refine .one hkind ?_ rfl fun _ => .inr List.mem_cons_self
      exact a₀.members_startMember_setLastData base e e.data
  · dsimp only at h₁
    rw [if_pos hregular] at h₁
    obtain ⟨rfl, rfl, rfl⟩ := h₁.of_done
    refine ⟨_, hsame₁, rfl, .one hkind ?_ rfl (absurd · hregular)⟩
    simp [Archive.startMember, Entry.member, Entry.data, hregular]

theorem packEntry_packed {out base : String} {e : Entry} {w w' : World} {trace : FsTrace}
    {r : Except Err Unit} {a : Archive}
    (hrun : Runs Perform (packEntry out base e) w trace r w')
    (harchive : w.archives out = some a) (hsettled : a.Settled) :
    ∃ a', SameElse out a a' w w' ∧ closesDone trace = [] ∧ Packed base a [e] trace r a' := by
  have hsame := SameElse.refl harchive
  simp only [packEntry, ask_bind] at hrun
  obtain ⟨visited, _, t₁, hvisit, rfl, h₁⟩ := hrun.of_act
  cases hvisit
  cases visited with
  | error err =>
    obtain ⟨rfl, rfl, rfl⟩ := h₁.of_done
    exact ⟨a, hsame, rfl, .stopped rfl hsettled rfl⟩
  | ok _ =>
  by_cases hdir : e.kind = .directory
  · simp only [if_pos hdir] at h₁
    obtain ⟨rfl, rfl, rfl⟩ := h₁.of_done
    refine ⟨a, hsame, rfl, .upTo [e] [] rfl ?_ hsettled ?_ ?_ fun _ => rfl⟩
    · simp [hdir]
    · intro e' he' hregular
      rw [List.mem_singleton.mp he', hdir] at hregular
      cases hregular
    · intro e' he'
      cases he'
  simp only [if_neg hdir] at h₁
  obtain ⟨abs, _, t₂, habs, rfl, h₂⟩ := h₁.of_act
  cases habs
  cases abs with
  | error err =>
    obtain ⟨rfl, rfl, rfl⟩ := h₂.of_done
    exact ⟨a, hsame, rfl, .stopped rfl hsettled rfl⟩
  | ok _ =>
  obtain ⟨rel, _, t₃, hrel, rfl, h₃⟩ := h₂.of_act
  cases hrel
  cases rel with
  | error err =>
    obtain ⟨rfl, rfl, rfl⟩ := h₃.of_done
    exact ⟨a, hsame, rfl, .stopped rfl hsettled rfl⟩
  | ok _ =>
  obtain ⟨info, _, t₄, hinfo, rfl, h₄⟩ := h₃.of_act
  cases hinfo
  cases info with
  | error err =>
    obtain ⟨rfl, rfl, rfl⟩ := h₄.of_done
    exact ⟨a, hsame, rfl, .stopped rfl hsettled rfl⟩
  | ok _ =>
  obtain ⟨a', hsame', hcloses, hpacked⟩ := packMember_packed h₄ harchive hsettled hdir
  exact ⟨a', hsame', hcloses, hpacked.of_same rfl rfl⟩

theorem walkEntries_packed {out base : String} {entries : List Entry} {w w' : World}
    {trace : FsTrace} {r : Except Err Unit} {a : Archive}
    (hrun : Runs Perform (walkEntries out base entries) w trace r w')
    (harchive : w.archives out = some a) (hsettled : a.Settled) :
    ∃ a', SameElse out a a' w w' ∧ closesDone trace = [] ∧ Packed base a entries trace r a' := by
  induction entries generalizing w trace a with
  | nil =>
    obtain ⟨rfl, rfl, rfl⟩ := hrun.of_done
    refine ⟨a, .refl harchive, rfl, .upTo [] [] rfl ?_ hsettled ?_ ?_ fun _ => rfl⟩
    · simp
    · intro e he
      cases he
    · intro e he
      cases he
  | cons e rest ih =>
    obtain ⟨t₁, r₁, w₁, t₂, rfl, hentry, hmore⟩ := hrun.of_bind
    obtain ⟨a₁, hsame₁, hcloses₁, hpacked₁⟩ := packEntry_packed hentry harchive hsettled
    cases r₁ with
    | error err =>
      obtain ⟨rfl, rfl, rfl⟩ := hmore.of_done
      rw [List.append_nil]
      refine ⟨a₁, hsame₁, hcloses₁, ?_⟩
      cases hpacked₁ with
      | upTo done left hsplit hmembers hsettled₁ hstored hdone _ =>
        refine .upTo done (left ++ rest) ?_ hmembers hsettled₁ hstored hdone ?_
        · rw [← List.append_assoc, ← hsplit]
          rfl
        · rintro ⟨⟩
      | short err' hshort _ => exact .short err hshort rfl
    | ok _ =>
      cases hpacked₁ with
      | short err' _ herror => cases herror
      | upTo done left hsplit hmembers hsettled₁ hstored hdone hend =>
      obtain rfl := hend rfl
      rw [List.append_nil] at hsplit
      subst hsplit
      obtain ⟨a₂, hsame₂, hcloses₂, hpacked₂⟩ := ih hmore hsame₁.archive hsettled₁
      refine ⟨a₂, hsame₁.trans hsame₂, by simp [hcloses₁, hcloses₂], ?_⟩
      cases hpacked₂ with
      | short err hshort herror => exact .short err hshort herror
      | upTo done₂ left₂ hsplit₂ hmembers₂ hsettled₂ hstored₂ hdone₂ hend₂ =>
        refine .upTo ([e] ++ done₂) left₂ ?_ ?_ hsettled₂ ?_ ?_ hend₂
        · rw [hsplit₂]
          rfl
        · rw [hmembers₂, hmembers, List.filter_append, List.map_append, List.append_assoc]
        · intro e' he' hregular
          rw [headersDone_append, copiesDone_append, List.mem_append, List.mem_append]
          rcases List.mem_append.mp he' with he' | he'
          · obtain ⟨hheader, hcopied⟩ := hstored e' he' hregular
            exact ⟨.inl hheader, hcopied.imp id .inl⟩
          · obtain ⟨hheader, hcopied⟩ := hstored₂ e' he' hregular
            exact ⟨.inr hheader, hcopied.imp id .inr⟩
        · intro e' he'
          rw [headersDone_append, List.mem_append] at he'
          rw [List.mem_append]
          exact he'.imp (hdone e') (hdone₂ e')

theorem packFolder_packed {out : String} {folder : FilePath} {w w' : World} {trace : FsTrace}
    {r : Except Err Unit} {a : Archive} {listing : Listing}
    (hrun : Runs Perform (packFolder out folder) w trace r w')
    (harchive : w.archives out = some a) (hsettled : a.Settled)
    (hdir : w.dirs (folder.resolve w.cwd) = some listing) :
    ∃ a', SameElse out a a' w w' ∧ closesDone trace = [] ∧
      Packed (filepathBase (folder.resolve w.cwd)) a listing.entries trace r a' := by
  simp only [packFolder, ask_bind] at hrun
  obtain ⟨abs, w₁, t₁, ⟨hw₁, habs⟩, rfl, h₁⟩ := hrun.of_act
  subst hw₁
  cases abs with
  | error err =>
    obtain ⟨rfl, rfl, rfl⟩ := h₁.of_done
    refine ⟨a, .refl harchive, rfl, .upTo [] listing.entries rfl ?_ hsettled ?_ ?_ ?_⟩
    · simp
    · intro e he
      cases he
    · intro e he
      cases he
    · rintro ⟨⟩
  | ok absFolderPath =>
    obtain rfl := habs absFolderPath rfl
    obtain ⟨entries, w₂, t₂, ⟨hw₂, hwalk⟩, rfl, h₂⟩ := h₁.of_act
    subst hw₂
    obtain rfl := hwalk listing hdir
    obtain ⟨a', hsame, hcloses, hpacked⟩ := walkEntries_packed h₂ harchive hsettled
    exact ⟨a', hsame, hcloses, hpacked.of_same rfl rfl⟩

theorem Perform.close {writer : Writer} {out : String} {w w' : World} {r : Except Err Unit}
    {a : Archive} (h : Perform (.close writer out) w r w') (harchive : w.archives out = some a) :
    w'.archives out = some (a.closeIf r.isOk writer) ∧ w'.cwd = w.cwd ∧ w'.dirs = w.dirs ∧
      (writer = .tar → r.isOk = true → a.Settled) := by
  cases r with
  | error err =>
    obtain rfl : w' = w := h
    exact ⟨harchive, rfl, rfl, by rintro _ ⟨⟩⟩
  | ok _ =>
    obtain ⟨a', ha', hready, rfl⟩ := h
    obtain rfl := Option.some.inj (ha'.symm.trans harchive)
    exact ⟨World.archives_setArchive _ _ _, rfl, rfl, fun htar _ => (hready htar).2⟩

theorem mem_closesDone_close {writer writer' : Writer} {out : String} {w : World}
    {r : (Op.close writer out).Reply} {trace : FsTrace} :
    writer' ∈ closesDone (⟨w, .close writer out, r⟩ :: trace) ↔
      (Except.isOk r = true ∧ writer' = writer) ∨ writer' ∈ closesDone trace := by
  cases r with
  | error err =>
    constructor
    · exact .inr
    · rintro (⟨⟨⟩, _⟩ | h)
      exact h
  | ok _ =>
    constructor
    · intro h
      exact (List.mem_cons.mp h).imp (⟨rfl, ·⟩) id
    · rintro (⟨_, rfl⟩ | h)
      · exact List.mem_cons_self
      · exact List.mem_cons_of_mem _ h

/-- What the archive holds, by the steps that succeeded: its ends by the writers
that were closed, its members by the headers and copies. -/
structure Written (base : String) (entries : List Entry) (trace : FsTrace) (a : Archive) :
    Prop where
  trailer : a.trailer = true ↔ .tar ∈ closesDone trace
  frameEnd : a.frameEnd = true ↔ .enc ∈ closesDone trace
  stored : a.stored = true ↔ .out ∈ closesDone trace
  packed : .tar ∈ closesDone trace → ∃ done rest, entries = done ++ rest ∧
    a.members = (done.filter (·.kind ≠ .directory)).map (Entry.member base) ∧
    (∀ e ∈ done, e.kind = .regular →
      e ∈ headersDone trace ∧ (e.content = [] ∨ e ∈ copiesDone trace)) ∧
    ∀ e ∈ headersDone trace, e ∈ done

theorem writeArchive_written {out : String} {folder : FilePath} {w w' : World} {trace : FsTrace}
    {r : Except Err Unit} {listing : Listing}
    (hrun : Runs Perform (writeArchive out folder) w trace r w')
    (harchive : w.archives out = some .empty)
    (hdir : w.dirs (folder.resolve w.cwd) = some listing) :
    ∃ a, w'.archives out = some a ∧ w'.cwd = w.cwd ∧ w'.dirs = w.dirs ∧
      Written (filepathBase (folder.resolve w.cwd)) listing.entries trace a := by
  simp only [writeArchive, ask_bind] at hrun
  obtain ⟨writer, _, t₁, hwriter, rfl, h₁⟩ := hrun.of_act
  cases hwriter
  cases writer with
  | error err =>
    obtain ⟨rfl, rfl, rfl⟩ := h₁.of_done
    refine ⟨.empty, harchive, rfl, rfl, ?_, ?_, ?_, ?_⟩ <;> simp [Archive.empty, closesDone]
  | ok created =>
    obtain ⟨t₂, packed, w₂, t₃, rfl, hpack, h₃⟩ := h₁.of_bind
    obtain ⟨a₂, hsame, hcloses, hpacked⟩ :=
      packFolder_packed hpack harchive (by simp [Archive.Settled, Archive.empty]) hdir
    obtain ⟨tar, w₄, t₄, htar, rfl, h₄⟩ := h₃.of_act
    obtain ⟨enc, w₅, t₅, henc, rfl, h₅⟩ := h₄.of_act
    obtain ⟨rfl, rfl, rfl⟩ := h₅.of_done
    obtain ⟨harchive₄, hcwd₄, hdirs₄, hsettled⟩ := htar.close hsame.archive
    obtain ⟨harchive₅, hcwd₅, hdirs₅, _⟩ := henc.close harchive₄
    have hflags : a₂.trailer = false ∧ a₂.frameEnd = false ∧ a₂.stored = false :=
      ⟨hsame.trailer, hsame.frameEnd, hsame.stored⟩
    have hclosed (writer : Writer) : writer ∈ closesDone (⟨w, .newWriter, .ok created⟩ ::
        (t₂ ++ [⟨w₂, .close .tar out, tar⟩, ⟨w₄, .close .enc out, enc⟩])) ↔
          (tar.isOk = true ∧ writer = .tar) ∨ (enc.isOk = true ∧ writer = .enc) := by
      calc
        _ ↔ writer ∈ closesDone
            (t₂ ++ [⟨w₂, .close .tar out, tar⟩, ⟨w₄, .close .enc out, enc⟩]) := Iff.rfl
        _ ↔ _ := by
          rw [closesDone_append, hcloses, List.nil_append, mem_closesDone_close,
            mem_closesDone_close]
          simp [closesDone]
    refine ⟨_, harchive₅, hcwd₅.trans (hcwd₄.trans hsame.cwd),
      hdirs₅.trans (hdirs₄.trans hsame.dirs), ?_⟩
    constructor
    · simp [hclosed, hflags]
    · simp [hclosed, hflags]
    · simp [hclosed, hflags]
    · intro htarClosed
      have hok : tar.isOk = true := by simpa using (hclosed .tar).mp htarClosed
      have hheaders : headersDone (⟨w, .newWriter, .ok created⟩ ::
          (t₂ ++ [⟨w₂, .close .tar out, tar⟩, ⟨w₄, .close .enc out, enc⟩])) =
            headersDone t₂ := by
        calc
          _ = headersDone (t₂ ++ [⟨w₂, .close .tar out, tar⟩, ⟨w₄, .close .enc out, enc⟩]) := rfl
          _ = headersDone t₂ := by simp [headersDone]
      have hcopies : copiesDone (⟨w, .newWriter, .ok created⟩ ::
          (t₂ ++ [⟨w₂, .close .tar out, tar⟩, ⟨w₄, .close .enc out, enc⟩])) =
            copiesDone t₂ := by
        calc
          _ = copiesDone (t₂ ++ [⟨w₂, .close .tar out, tar⟩, ⟨w₄, .close .enc out, enc⟩]) := rfl
          _ = copiesDone t₂ := by simp [copiesDone]
      rw [hheaders, hcopies]
      cases hpacked with
      | short err hshort _ => exact absurd (hsettled rfl hok) hshort
      | upTo done rest hsplit hmembers _ hstored hdone _ =>
        refine ⟨done, rest, hsplit, ?_, hstored, hdone⟩
        simpa [Archive.empty] using hmembers

theorem Written.closeOut {base : String} {entries : List Entry} {trace trace' : FsTrace}
    {a : Archive} {ok : Bool} (h : Written base entries trace a)
    (hheaders : headersDone trace' = headersDone trace)
    (hcopies : copiesDone trace' = copiesDone trace)
    (hcloses : ∀ writer, writer ∈ closesDone trace' ↔
      writer ∈ closesDone trace ∨ (ok = true ∧ writer = .out)) :
    Written base entries trace' (a.closeIf ok .out) where
  trailer := by simp [hcloses, h.trailer]
  frameEnd := by simp [hcloses, h.frameEnd]
  stored := by simp [hcloses, h.stored]
  packed htar := by
    have htar' : .tar ∈ closesDone trace := by simpa [hcloses] using htar
    rw [hheaders, hcopies, Archive.closeIf_members]
    exact h.packed htar'

/-- Every archive step that matters succeeded: the header and the copy of each
regular file, unless it is empty, and the closing of all three writers. -/
structure Complete (trace : FsTrace) (entries : List Entry) : Prop where
  packed : ∀ e ∈ entries, e.kind = .regular →
    e ∈ headersDone trace ∧ (e.content = [] ∨ e ∈ copiesDone trace)
  closed : ∀ writer, writer ∈ closesDone trace

/-- The file exists and decodes to a tar that holds exactly the regular files
of the folder, with their contents. -/
def Archived (base : String) (entries : List Entry) (file : Option Archive) : Prop :=
  ∃ a members, file = some a ∧ a.decode = some members ∧
    members.filter (·.kind = .regular) =
      (entries.filter (·.kind = .regular)).map (Entry.member base)

theorem regular_members (base : String) (entries : List Entry) :
    ((entries.filter (·.kind ≠ .directory)).map (Entry.member base)).filter
        (·.kind = .regular) =
      (entries.filter (·.kind = .regular)).map (Entry.member base) := by
  rw [List.filter_map, List.filter_filter]
  congr 1
  apply List.filter_congr
  intro e _
  cases hkind : e.kind <;> simp [Entry.member, hkind]

theorem Written.archived_iff {base : String} {entries : List Entry} {trace : FsTrace}
    {a : Archive} (h : Written base entries trace a) (hnodup : entries.Nodup) :
    Archived base entries (some a) ↔ Complete trace entries := by
  constructor
  · rintro ⟨a', members, heq, hdecode, hregular⟩
    obtain rfl := Option.some.inj heq
    simp only [Archive.decode, Bool.and_eq_true] at hdecode
    split at hdecode
    · next hends =>
        obtain ⟨⟨htrailer, hframe⟩, hstored⟩ := hends
        have htar := h.trailer.mp htrailer
        obtain ⟨done, rest, rfl, hmembers, hpacked, _⟩ := h.packed htar
        rw [Option.some.injEq] at hdecode
        rw [← hdecode, hmembers, regular_members, List.filter_append, List.map_append] at hregular
        have hrest := List.self_eq_append_right.mp hregular
        refine ⟨?_, ?_⟩
        · intro e he hkind
          rcases List.mem_append.mp he with he | he
          · exact hpacked e he hkind
          · have hmem : e.member base ∈
                (rest.filter (·.kind = .regular)).map (Entry.member base) :=
              List.mem_map_of_mem (List.mem_filter.mpr ⟨he, by simpa using hkind⟩)
            rw [hrest] at hmem
            cases hmem
        · intro writer
          cases writer with
          | tar => exact htar
          | enc => exact h.frameEnd.mp hframe
          | out => exact h.stored.mp hstored
    · cases hdecode
  · intro hcomplete
    obtain ⟨done, rest, rfl, hmembers, _, hheaders⟩ := h.packed (hcomplete.closed .tar)
    refine ⟨a, a.members, rfl, ?_, ?_⟩
    · simp [Archive.decode, h.trailer.mpr (hcomplete.closed .tar),
        h.frameEnd.mpr (hcomplete.closed .enc), h.stored.mpr (hcomplete.closed .out)]
    · rw [hmembers, regular_members, List.filter_append, List.map_append]
      apply List.self_eq_append_right.mpr
      rw [List.map_eq_nil_iff, List.filter_eq_nil_iff]
      intro e he hkind
      -- a regular file that was not reached has no header
      have hheader := (hcomplete.packed e (List.mem_append_right _ he) (by simpa using hkind)).1
      exact (List.disjoint_of_nodup_append hnodup) (hheaders e hheader) he

/-- A run that closed no writer is not complete, and has archived nothing unless
the file was there before. -/
theorem archived_of_no_closes {base : String} {trace : FsTrace} {entries : List Entry}
    {before after : Option Archive} (hcloses : closesDone trace = []) (hsame : after = before) :
    (Complete trace entries → Archived base entries after) ∧
      (before = none → Archived base entries after → Complete trace entries) := by
  constructor
  · intro hcomplete
    have hclosed := hcomplete.closed .tar
    rw [hcloses] at hclosed
    cases hclosed
  · rintro hnone ⟨_, _, hsome, _⟩
    rw [hsame, hnone] at hsome
    cases hsome

theorem compressFolder_archived {folder : FilePath} {w w' : World} {trace : FsTrace}
    {r : Except Err FilePath} {listing : Listing}
    (hrun : Runs Perform (compressFolder folder) w trace r w')
    (hdir : w.dirs (folder.resolve w.cwd) = some listing) :
    w'.cwd = w.cwd ∧ w'.dirs = w.dirs ∧
      (Complete trace listing.entries →
        Archived (filepathBase (folder.resolve w.cwd)) listing.entries
          (w'.archives ((zstName folder).resolve w.cwd))) ∧
      (w.archives ((zstName folder).resolve w.cwd) = none →
        Archived (filepathBase (folder.resolve w.cwd)) listing.entries
          (w'.archives ((zstName folder).resolve w.cwd)) →
        Complete trace listing.entries) := by
  simp only [compressFolder, ask_bind] at hrun
  obtain ⟨isDir, w₁, t₁, ⟨hw₁, hstat⟩, ht₁, h₁⟩ := hrun.of_act
  subst hw₁
  cases isDir with
  | error err =>
    obtain ⟨rfl, rfl, rfl⟩ := h₁.of_done
    exact ⟨rfl, rfl, archived_of_no_closes (by rw [ht₁]; rfl) rfl⟩
  | ok isDir =>
  obtain rfl : isDir = true := by simpa [hdir] using hstat isDir rfl
  obtain ⟨created, w₂, t₂, hcreate, ht₂, h₂⟩ := h₁.of_act
  cases created with
  | error err =>
    cases hcreate
    obtain ⟨rfl, rfl, rfl⟩ := h₂.of_done
    exact ⟨rfl, rfl, archived_of_no_closes (by rw [ht₁, ht₂]; rfl) rfl⟩
  | ok out =>
  obtain ⟨rfl, rfl⟩ := hcreate
  obtain ⟨t₃, written, w₃, t₄, ht₃, hwrite, h₄⟩ := h₂.of_bind
  obtain ⟨a₃, harchive₃, hcwd₃, hdirs₃, hwritten⟩ :=
    writeArchive_written hwrite (World.archives_setArchive _ _ _) hdir
  obtain ⟨closed, w₄, t₅, hclose, ht₄, h₅⟩ := h₄.of_act
  obtain ⟨rfl, rfl, rfl⟩ := h₅.of_done
  obtain ⟨harchive₄, hcwd₄, hdirs₄, _⟩ := hclose.close harchive₃
  refine ⟨hcwd₄.trans hcwd₃, hdirs₄.trans hdirs₃, ?_⟩
  rw [harchive₄]
  have hheaders : headersDone trace = headersDone t₃ := by
    subst ht₁ ht₂ ht₃ ht₄
    exact (headersDone_append t₃ _).trans (List.append_nil _)
  have hcopies : copiesDone trace = copiesDone t₃ := by
    subst ht₁ ht₂ ht₃ ht₄
    exact (copiesDone_append t₃ _).trans (List.append_nil _)
  have hcloses (writer : Writer) : writer ∈ closesDone trace ↔
      writer ∈ closesDone t₃ ∨ (Except.isOk closed = true ∧ writer = .out) := by
    subst ht₁ ht₂ ht₃ ht₄
    calc
      _ ↔ writer ∈ closesDone (t₃ ++ [⟨w₃, .close .out _, closed⟩]) := Iff.rfl
      _ ↔ _ := by
        rw [closesDone_append, List.mem_append, mem_closesDone_close]
        simp [closesDone]
  have hfinal := (hwritten.closeOut hheaders hcopies hcloses).archived_iff listing.nodup
  exact ⟨hfinal.mpr, fun _ => hfinal.mp⟩

end YcAgent.Ondemand
