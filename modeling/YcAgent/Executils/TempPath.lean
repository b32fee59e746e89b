import Mathlib.Data.List.Basic
import Mathlib.Logic.Function.Basic
import YcAgent.Capture.Post
import YcAgent.Lib.Moves

/-!
Calls of `Copy2TempPath` side by side, and the `RemoveFromTempPath` after them. A
call reads `tmpPath` under the read lock, gives that lock back and only then asks
for the write lock, which it holds until it returns. Every operation of the
locked part may fail. The calls share nothing but `tmpPath` and the directory of
temporary files, where `os.CreateTemp` never takes a name that exists.
-/

namespace YcAgent.Executils

open Capture Lib.Moves

variable {ι : Type}

inductive CopyPoint where
  | idle
  | unlocked
  | locked
  | located
  | opened
  | created (file : Path)
  | copied (file : Path)
  | returned (name : Path) (err : Option IOError)
  deriving DecidableEq

/-- How the next operation of a call ends. -/
inductive CopyTurn where
  | next
  | create (name : Path)
  | fail (err : IOError)

namespace CopyPoint

def inside : CopyPoint → Bool
  | .locked | .located | .opened | .created _ | .copied _ => true
  | .idle | .unlocked | .returned _ _ => false

/-- The temporary file a call has made and not yet published. -/
def file : CopyPoint → Option Path
  | .created file | .copied file => some file
  | .idle | .unlocked | .locked | .located | .opened | .returned _ _ => none

def finished : CopyPoint → Bool
  | .idle | .returned _ _ => true
  | .unlocked | .locked | .located | .opened | .created _ | .copied _ => false

def succeeded : CopyPoint → Bool
  | .returned _ none => true
  | _ => false

theorem inside_of_file {p : CopyPoint} {f : Path} (h : p.file = some f) : p.inside = true := by
  cases p with
  | created | copied => rfl
  | idle | unlocked | locked | located | opened | returned => cases h

theorem file_of_finished {p : CopyPoint} (h : p.finished = true) : p.file = none := by
  cases p with
  | idle | returned => rfl
  | unlocked | locked | located | opened | created | copied => cases h

end CopyPoint

/-- `tmpPath`, the call that holds the write lock, the temporary files that exist
and the calls that made them. -/
structure TempCopies (ι : Type) where
  tmpPath : Path
  writer : Option ι
  files : List Path
  made : List (ι × Path)
  point : ι → CopyPoint

def invalidPath : IOError := "failed to Copy2TempPath: invalid path"

namespace TempCopies

def start : TempCopies ι := ⟨"", none, [], [], fun _ => .idle⟩

section Turns

variable [DecidableEq ι]

def goto (s : TempCopies ι) (i : ι) (p : CopyPoint) : TempCopies ι :=
  { s with point := Function.update s.point i p }

/-- A return from the locked part; the deferred call gives the lock back. -/
def leave (s : TempCopies ι) (i : ι) (name : Path) (err : Option IOError) : TempCopies ι :=
  { s.goto i (.returned name err) with writer := none }

/-- The next operation of a call of `Copy2TempPath`. -/
def copy2TempPath (s : TempCopies ι) : ι × CopyTurn → Option (TempCopies ι)
  | (i, t) =>
    match s.point i, t with
    | .idle, .next =>
      if s.writer.isSome then none
      else if s.tmpPath = "" then some (s.goto i .unlocked)
      else some (s.goto i (.returned s.tmpPath none))
    | .unlocked, .next =>
      if s.writer.isSome then none
      else some { s.goto i .locked with writer := some i }
    | .locked, .next => some (s.goto i .located)
    | .locked, .fail _ => some (s.leave i "" (some invalidPath))
    | .located, .next => some (s.goto i .opened)
    | .located, .fail err => some (s.leave i "" (some err))
    | .opened, .create name =>
      if name = "" ∨ name ∈ s.files then none
      else some { s.goto i (.created name) with
        files := name :: s.files, made := (i, name) :: s.made }
    | .opened, .fail err => some (s.leave i "" (some err))
    | .created file, .next => some (s.goto i (.copied file))
    -- the file is closed, but it stays
    | .created _, .fail err => some (s.leave i "" (some err))
    | .copied file, .next => some { s.leave i file none with tmpPath := file }
    -- an error of `Chmod` is returned along with the path
    | .copied file, .fail err => some { s.leave i file (some err) with tmpPath := file }
    | _, _ => none

end Turns

/-- The temporary files after a `RemoveFromTempPath` whose `os.Remove`, if it is
called, has worked or not. -/
def removeFromTempPath (s : TempCopies ι) (removed : Bool) : List Path :=
  if s.tmpPath = "" then s.files
  else if removed then s.files.erase s.tmpPath
  else s.files

/-- Every call that was made has returned. -/
def Finished (s : TempCopies ι) : Prop :=
  ∀ i, (s.point i).finished = true

/-- The copies that successful calls have made. -/
def successful (s : TempCopies ι) : List (ι × Path) :=
  s.made.filter fun copy => (s.point copy.1).succeeded

/-- The calls have shared one copy, and it is gone after the removal. -/
structure SharedOnce (s : TempCopies ι) (removed : Bool) : Prop where
  one : s.successful.length ≤ 1
  same : ∀ i j name name', s.point i = .returned name none → s.point j = .returned name' none →
    name = name'
  none_left : s.removeFromTempPath removed = []

/-- A call makes its file while no path has been published, and can fill it. -/
def Fit (s : TempCopies ι) : ι × CopyTurn → Prop
  | (i, t) =>
    match s.point i, t with
    | .opened, .create _ => s.tmpPath = ""
    | .created _, .fail _ => False
    | _, _ => True

variable {s s' : TempCopies ι} {i : ι}

inductive Change (s : TempCopies ι) (i : ι) (fit : Prop) (s' : TempCopies ι) : Prop
  | keep (hfit : fit) (htmpPath : s'.tmpPath = s.tmpPath) (hfiles : s'.files = s.files)
      (hmade : s'.made = s.made) (hfile : (s'.point i).file = (s.point i).file)
      (hname : ∀ name, s'.point i = .returned name none → name = s.tmpPath ∧ name ≠ "")
  | create (name : Path) (hfit : fit ↔ s.tmpPath = "") (hnew : name ≠ "" ∧ name ∉ s.files)
      (hpoint : s.point i = .opened) (htmpPath : s'.tmpPath = s.tmpPath)
      (hfiles : s'.files = name :: s.files) (hmade : s'.made = (i, name) :: s.made)
      (hpoint' : s'.point i = .created name)
  | lose (file : Path) (err : IOError) (hfit : ¬fit) (hpoint : s.point i = .created file)
      (htmpPath : s'.tmpPath = s.tmpPath) (hfiles : s'.files = s.files) (hmade : s'.made = s.made)
      (hpoint' : s'.point i = .returned "" (some err))
  | publish (file : Path) (err : Option IOError) (hfit : fit) (hpoint : s.point i = .copied file)
      (htmpPath : s'.tmpPath = file) (hfiles : s'.files = s.files) (hmade : s'.made = s.made)
      (hpoint' : s'.point i = .returned file err)

/-- A turn of the call `i` moves no other call. It starts with the write lock or
without anybody holding it. -/
structure Turned (s : TempCopies ι) (i : ι) (fit : Prop) (s' : TempCopies ι) : Prop where
  entered : (s.point i).inside = true ∨ s.writer = none
  writer : s'.writer = if (s'.point i).inside then some i else none
  others : ∀ j, j ≠ i → s'.point j = s.point j
  change : Change s i fit s'

section Cases

variable [DecidableEq ι]

private theorem goto_self (p : CopyPoint) : (s.goto i p).point i = p :=
  Function.update_self ..

private theorem goto_others (p : CopyPoint) (j : ι) (hj : j ≠ i) :
    (s.goto i p).point j = s.point j :=
  Function.update_of_ne hj ..

private theorem Turned.outside {fit : Prop} (hfit : fit) (hwriter : s.writer = none)
    {p : CopyPoint} (hp : p.inside = false) (hfile : p.file = (s.point i).file)
    (hname : ∀ name, p = .returned name none → name = s.tmpPath ∧ name ≠ "") :
    Turned s i fit (s.goto i p) where
  entered := .inr hwriter
  writer := by rw [goto_self, hp]; exact hwriter
  others := goto_others p
  change := .keep hfit rfl rfl rfl (by rw [goto_self, hfile]) (by rwa [goto_self])

private theorem Turned.pass {fit : Prop} (hfit : fit)
    (hinside : (s.point i).inside = true → s.writer = some i) {q p : CopyPoint}
    (hpoint : s.point i = q) (hq : q.inside = true) (hp : p.inside = true)
    (hfile : p.file = q.file) : Turned s i fit (s.goto i p) := by
  subst hpoint
  refine ⟨.inl hq, ?_, goto_others p, .keep hfit rfl rfl rfl (by rw [goto_self, hfile]) ?_⟩
  · rw [goto_self, hp, if_pos rfl]
    exact hinside hq
  · intro name hname
    rw [goto_self] at hname
    rw [hname] at hp
    cases hp

private theorem Turned.giveUp {fit : Prop} (hfit : fit) {q : CopyPoint} (hpoint : s.point i = q)
    (hq : q.inside = true) (hfile : q.file = none) (err : IOError) :
    Turned s i fit (s.leave i "" (some err)) := by
  subst hpoint
  refine ⟨.inl hq, by simp [leave, goto, CopyPoint.inside], goto_others _,
    .keep hfit rfl rfl rfl ((congrArg CopyPoint.file (goto_self _)).trans hfile.symm) ?_⟩
  intro name hname
  cases (goto_self (s := s) _).symm.trans hname

private theorem Turned.publishes {fit : Prop} (hfit : fit) {file : Path}
    (hpoint : s.point i = .copied file) (err : Option IOError) :
    Turned s i fit { s.leave i file err with tmpPath := file } where
  entered := .inl (by rw [hpoint]; rfl)
  writer := by simp [leave, goto, CopyPoint.inside]
  others := goto_others _
  change := .publish file err hfit hpoint rfl rfl rfl (goto_self _)

theorem turn_cases {t : CopyTurn} (hinside : (s.point i).inside = true → s.writer = some i)
    (h : s.copy2TempPath (i, t) = some s') : Turned s i (s.Fit (i, t)) s' := by
  unfold copy2TempPath at h
  simp only at h
  split at h
  case h_1 hpoint =>
    -- the read of `tmpPath`
    split at h
    case isTrue => cases h
    case isFalse hfree =>
      have hwriter : s.writer = none := by simpa using hfree
      have hfit : s.Fit (i, .next) := by simp only [Fit, hpoint]
      split at h
      case isTrue =>
        cases h
        exact .outside hfit hwriter rfl (by rw [hpoint]; rfl) nofun
      case isFalse hcached =>
        cases h
        refine .outside hfit hwriter rfl (by rw [hpoint]; rfl) fun name hname => ?_
        cases hname
        exact ⟨rfl, hcached⟩
  case h_2 hpoint =>
    split at h
    case isTrue => cases h
    case isFalse hfree =>
      cases h
      have hwriter : s.writer = none := by simpa using hfree
      refine ⟨.inr hwriter, by simp [goto, CopyPoint.inside], goto_others _,
        .keep (by simp only [Fit, hpoint]) rfl rfl rfl
          (by simp [goto, hpoint, CopyPoint.file]) fun name hname => ?_⟩
      cases (goto_self (s := s) _).symm.trans hname
  case h_3 hpoint =>
    cases h
    exact .pass (by simp only [Fit, hpoint]) hinside hpoint rfl rfl rfl
  case h_4 hpoint =>
    cases h
    exact .giveUp (by simp only [Fit, hpoint]) hpoint rfl rfl _
  case h_5 hpoint =>
    cases h
    exact .pass (by simp only [Fit, hpoint]) hinside hpoint rfl rfl rfl
  case h_6 hpoint =>
    cases h
    exact .giveUp (by simp only [Fit, hpoint]) hpoint rfl rfl _
  case h_7 name hpoint =>
    split at h
    case isTrue => cases h
    case isFalse hnew =>
      cases h
      rw [hpoint] at hinside
      refine ⟨.inl (by rw [hpoint]; rfl), by simp [goto, CopyPoint.inside, hinside rfl],
        goto_others _, .create name (by simp only [Fit, hpoint]) (not_or.1 hnew) hpoint rfl rfl rfl
          (goto_self _)⟩
  case h_8 hpoint =>
    cases h
    exact .giveUp (by simp only [Fit, hpoint]) hpoint rfl rfl _
  case h_9 file hpoint =>
    cases h
    exact .pass (by simp only [Fit, hpoint]) hinside hpoint rfl rfl rfl
  case h_10 file err hpoint =>
    cases h
    exact ⟨.inl (by rw [hpoint]; rfl), by simp [leave, goto, CopyPoint.inside], goto_others _,
      .lose file err (by simp only [Fit, hpoint, not_false_eq_true]) hpoint rfl rfl rfl
        (goto_self _)⟩
  case h_11 file hpoint =>
    cases h
    exact .publishes (by simp only [Fit, hpoint]) hpoint none
  case h_12 file err hpoint =>
    cases h
    exact .publishes (by simp only [Fit, hpoint]) hpoint (some err)
  case h_13 => cases h

end Cases

/-- The write lock has one holder, and the file it is making is another one than
the published file, which exists. -/
structure Sound (s : TempCopies ι) : Prop where
  inside : ∀ i, (s.point i).inside = true → s.writer = some i
  held : ∀ i f, (s.point i).file = some f → f ∈ s.files ∧ f ≠ s.tmpPath
  published : s.tmpPath = "" ∨ s.tmpPath ∈ s.files
  made : s.made.length = s.files.length

theorem Sound.start : (start : TempCopies ι).Sound where
  inside _ hi := by cases hi
  held _ _ hi := by cases hi
  published := .inl rfl
  made := rfl

variable {fit : Prop}

theorem Sound.alone (h : s.Sound) (hturned : Turned s i fit s') {j : ι}
    (hj : (s.point j).inside = true) : j = i := by
  have hwriter := h.inside j hj
  rcases hturned.entered with hi | hnone
  · exact Option.some_injective _ (hwriter.symm.trans (h.inside i hi))
  · cases hwriter.symm.trans hnone

theorem Sound.no_file (h : s.Sound) (hturned : Turned s i fit s') {j : ι} (hj : j ≠ i) :
    (s'.point j).file = none := by
  rw [hturned.others j hj]
  cases hfile : (s.point j).file with
  | none => rfl
  | some f => exact absurd (h.alone hturned (CopyPoint.inside_of_file hfile)) hj

theorem Sound.turned (h : s.Sound) (hturned : Turned s i fit s') : s'.Sound := by
  have hheld : ∀ {j f}, (s'.point j).file = some f → j = i := by
    intro j f hfile
    by_contra hj
    cases hfile.symm.trans (h.no_file hturned hj)
  have hinside : ∀ j, (s'.point j).inside = true → s'.writer = some j := by
    intro j hj
    have hji : j = i := by
      by_contra hne
      rw [hturned.others j hne] at hj
      exact hne (h.alone hturned hj)
    subst hji
    rw [hturned.writer, hj, if_pos rfl]
  cases hturned.change with
  | keep _ htmpPath hfiles hmade hfile =>
    refine ⟨hinside, fun j f hj => ?_, ?_, ?_⟩
    · cases hheld hj
      rw [htmpPath, hfiles]
      exact h.held i f (hfile.symm.trans hj)
    · rw [htmpPath, hfiles]
      exact h.published
    · rw [hmade, hfiles]
      exact h.made
  | create name _ hnew hpoint htmpPath hfiles hmade hpoint' =>
    refine ⟨hinside, fun j f hj => ?_, ?_, ?_⟩
    · cases hheld hj
      rw [hpoint'] at hj
      cases hj
      rw [htmpPath, hfiles]
      refine ⟨List.mem_cons_self, fun heq => ?_⟩
      rcases h.published with hnone | hmem
      · exact hnew.1 (heq.trans hnone)
      · exact hnew.2 (heq ▸ hmem)
    · rw [htmpPath, hfiles]
      exact h.published.imp_right (List.mem_cons_of_mem _)
    · rw [hmade, hfiles, List.length_cons, List.length_cons, h.made]
  | lose file err _ hpoint htmpPath hfiles hmade hpoint' =>
    refine ⟨hinside, fun j f hj => ?_, ?_, ?_⟩
    · cases hheld hj
      rw [hpoint'] at hj
      cases hj
    · rw [htmpPath, hfiles]
      exact h.published
    · rw [hmade, hfiles]
      exact h.made
  | publish file err _ hpoint htmpPath hfiles hmade hpoint' =>
    refine ⟨hinside, fun j f hj => ?_, ?_, ?_⟩
    · cases hheld hj
      rw [hpoint'] at hj
      cases hj
    · rw [htmpPath, hfiles]
      exact .inr (h.held i file (by rw [hpoint]; rfl)).1
    · rw [hmade, hfiles]
      exact h.made

/-- Nothing exists but the published file or the one that is about to be. -/
structure Shared (s : TempCopies ι) : Prop where
  unpublished : s.tmpPath = "" → s.files = [] ∨ ∃ i f, (s.point i).file = some f ∧ s.files = [f]
  published : s.tmpPath ≠ "" → s.files = [s.tmpPath]
  name : ∀ i name, s.point i = .returned name none → name = s.tmpPath ∧ name ≠ ""

theorem Shared.start : (start : TempCopies ι).Shared where
  unpublished _ := .inl rfl
  published h := absurd rfl h
  name _ _ hi := by cases hi

/-- Names that other calls have returned stay the published one. -/
private theorem Shared.names (h : s.Shared) (hturned : Turned s i fit s')
    (htmpPath : s.tmpPath = "" ∨ s'.tmpPath = s.tmpPath)
    (hi : ∀ name, s'.point i = .returned name none → name = s'.tmpPath ∧ name ≠ "")
    (j : ι) (name : Path) (hj : s'.point j = .returned name none) :
    name = s'.tmpPath ∧ name ≠ "" := by
  rcases eq_or_ne j i with rfl | hne
  · exact hi name hj
  · rw [hturned.others j hne] at hj
    obtain ⟨hname, hsome⟩ := h.name j name hj
    rcases htmpPath with hnone | hsame
    · exact absurd (hname.trans hnone) hsome
    · exact ⟨hsame ▸ hname, hsome⟩

theorem Shared.turned (h : s.Shared) (hsound : s.Sound) (hturned : Turned s i fit s')
    (hfit : fit) : s'.Shared := by
  cases hturned.change with
  | keep _ htmpPath hfiles _ hfile hname =>
    refine ⟨fun hnone => ?_, fun hsome => ?_, h.names hturned (.inr htmpPath) ?_⟩
    · rw [htmpPath] at hnone
      rw [hfiles]
      refine (h.unpublished hnone).imp_right ?_
      rintro ⟨j, f, hj, hall⟩
      cases hsound.alone hturned (CopyPoint.inside_of_file hj)
      exact ⟨i, f, hfile.trans hj, hall⟩
    · rw [htmpPath] at hsome
      rw [htmpPath, hfiles]
      exact h.published hsome
    · rwa [htmpPath]
  | create name hempty hnew hpoint htmpPath hfiles _ hpoint' =>
    have hnone := hempty.1 hfit
    have hfirst : s.files = [] := by
      refine (h.unpublished hnone).resolve_right ?_
      rintro ⟨j, f, hj, -⟩
      cases hsound.alone hturned (CopyPoint.inside_of_file hj)
      rw [hpoint] at hj
      cases hj
    refine ⟨fun _ => .inr ⟨i, name, by rw [hpoint']; rfl, by rw [hfiles, hfirst]⟩,
      fun hsome => absurd (htmpPath.trans hnone) hsome, h.names hturned (.inl hnone) ?_⟩
    intro other hother
    cases hpoint'.symm.trans hother
  | lose _ _ hunfit => exact absurd hfit hunfit
  | publish file err _ hpoint htmpPath hfiles _ hpoint' =>
    obtain ⟨hmem, hne⟩ := hsound.held i file (by rw [hpoint]; rfl)
    have hnone : s.tmpPath = "" := by
      by_contra hsome
      rw [h.published hsome, List.mem_singleton] at hmem
      exact hne hmem
    have hall : s.files = [file] := by
      rcases h.unpublished hnone with hnil | ⟨_, f, -, hall⟩
      · rw [hnil] at hmem
        cases hmem
      · rw [hall, List.mem_singleton] at hmem
        rw [hall, hmem]
    have hfile : file ≠ "" := fun heq => hne (heq.trans hnone.symm)
    refine ⟨fun hempty => absurd (htmpPath.symm.trans hempty) hfile,
      fun _ => by rw [hfiles, hall, htmpPath], h.names hturned (.inl hnone) ?_⟩
    intro name hname
    cases hpoint'.symm.trans hname
    exact ⟨htmpPath.symm, hfile⟩

theorem Shared.sharedOnce (h : s.Shared) (hsound : s.Sound) (hfinished : s.Finished)
    {removed : Bool} (hremoved : s.tmpPath = "" ∨ removed = true) : s.SharedOnce removed := by
  have hlength : s.files.length ≤ 1 := by
    by_cases hnone : s.tmpPath = ""
    · rcases h.unpublished hnone with hnil | ⟨_, _, -, hall⟩
      · simp [hnil]
      · simp [hall]
    · simp [h.published hnone]
  refine ⟨?_, ?_, ?_⟩
  · calc s.successful.length ≤ s.made.length := List.length_filter_le ..
      _ = s.files.length := hsound.made
      _ ≤ 1 := hlength
  · intro i j name name' hi hj
    rw [(h.name i name hi).1, (h.name j name' hj).1]
  · unfold removeFromTempPath
    by_cases hnone : s.tmpPath = ""
    · rw [if_pos hnone]
      refine (h.unpublished hnone).resolve_right ?_
      rintro ⟨i, f, hi, -⟩
      cases hi.symm.trans (CopyPoint.file_of_finished (hfinished i))
    · rw [if_neg hnone, if_pos (hremoved.resolve_left hnone), h.published hnone,
        List.erase_cons_head]

/-- There are two files, or one that no call will publish. -/
def Left (s : TempCopies ι) : Prop :=
  2 ≤ s.files.length ∨ ∃ f ∈ s.files, f ≠ s.tmpPath ∧ ∀ i, (s.point i).file ≠ some f

theorem Left.of_unfit (hsound : s.Sound) (hturned : Turned s i fit s') (hunfit : ¬fit) :
    s'.Left := by
  cases hturned.change with
  | keep hfit => exact absurd hfit hunfit
  | publish _ _ hfit => exact absurd hfit hunfit
  | create name hempty _ _ _ hfiles =>
    have hmem := hsound.published.resolve_left fun hnone => hunfit (hempty.2 hnone)
    have hpos := List.length_pos_of_mem hmem
    refine .inl ?_
    rw [hfiles, List.length_cons]
    omega
  | lose file err _ hpoint htmpPath hfiles _ hpoint' =>
    obtain ⟨hmem, hne⟩ := hsound.held i file (by rw [hpoint]; rfl)
    refine .inr ⟨file, hfiles ▸ hmem, htmpPath ▸ hne, fun j hj => ?_⟩
    rcases eq_or_ne j i with rfl | hji
    · rw [hpoint'] at hj
      cases hj
    · cases hj.symm.trans (hsound.no_file hturned hji)

theorem Left.turned (h : s.Left) (hturned : Turned s i fit s') : s'.Left := by
  have hlength : s.files.length ≤ s'.files.length := by
    cases hturned.change with
    | keep _ _ hfiles | lose _ _ _ _ _ hfiles | publish _ _ _ _ _ hfiles => rw [hfiles]
    | create _ _ _ _ _ hfiles => rw [hfiles]; exact Nat.le_succ _
  rcases h with htwo | ⟨f, hmem, hne, hnobody⟩
  · exact .inl (htwo.trans hlength)
  have hothers : ∀ j, j ≠ i → (s'.point j).file ≠ some f := by
    intro j hj
    rw [hturned.others j hj]
    exact hnobody j
  have hstays : f ∈ s'.files → f ≠ s'.tmpPath → (s'.point i).file ≠ some f → s'.Left := by
    intro hmem' hne' hi
    refine .inr ⟨f, hmem', hne', fun j => ?_⟩
    rcases eq_or_ne j i with rfl | hj
    · exact hi
    · exact hothers j hj
  cases hturned.change with
  | keep _ htmpPath hfiles _ hfile =>
    exact hstays (hfiles ▸ hmem) (htmpPath ▸ hne) (hfile ▸ hnobody i)
  | create name _ hnew _ htmpPath hfiles _ hpoint' =>
    refine hstays (hfiles ▸ List.mem_cons_of_mem _ hmem) (htmpPath ▸ hne) ?_
    rw [hpoint']
    intro heq
    cases heq
    exact hnew.2 hmem
  | lose _ _ _ _ htmpPath hfiles _ hpoint' =>
    exact hstays (hfiles ▸ hmem) (htmpPath ▸ hne) (by rw [hpoint']; exact nofun)
  | publish file _ _ hpoint htmpPath hfiles _ hpoint' =>
    refine hstays (hfiles ▸ hmem) ?_ (by rw [hpoint']; exact nofun)
    rw [htmpPath]
    intro heq
    exact hnobody i (by rw [hpoint, heq]; rfl)

theorem Left.remains (h : s.Left) (removed : Bool) : s.removeFromTempPath removed ≠ [] := by
  have hfiles : s.files ≠ [] := by
    rintro hnil
    rcases h with htwo | ⟨f, hmem, -⟩
    · simp [hnil] at htwo
    · rw [hnil] at hmem
      cases hmem
  unfold removeFromTempPath
  split
  · exact hfiles
  split
  · rcases h with htwo | ⟨f, hmem, hne, -⟩
    · have herase := List.le_length_erase (a := s.tmpPath) (l := s.files)
      exact List.ne_nil_of_length_pos (by omega)
    · exact List.ne_nil_of_mem ((List.mem_erase_of_ne hne).2 hmem)
  · exact hfiles

variable [DecidableEq ι]

theorem sound_turn {m : ι × CopyTurn} (h : s.Sound) (hturn : s.copy2TempPath m = some s') :
    s'.Sound :=
  h.turned (turn_cases (h.inside m.1) hturn)

theorem shared_turn {m : ι × CopyTurn} (h : s.Sound ∧ s.Shared) (hfit : s.Fit m)
    (hturn : s.copy2TempPath m = some s') : s'.Sound ∧ s'.Shared := by
  have hturned := turn_cases (h.1.inside m.1) hturn
  exact ⟨h.1.turned hturned, h.2.turned h.1 hturned hfit⟩

/-- The calls share one copy and the removal deletes it exactly when no call makes
a file after another has published its own, no copy fails once its file has been
made, and the removal works if a path was published. -/
theorem sharedOnce_iff (turns : List (ι × CopyTurn)) (s : TempCopies ι) (removed : Bool)
    (hrun : run copy2TempPath turns start = some s) (hfinished : s.Finished) :
    s.SharedOnce removed ↔
      Fits copy2TempPath Fit turns start ∧ (s.tmpPath = "" ∨ removed = true) := by
  have hsound : s.Sound :=
    run_keeps (fun _ _ _ h _ => sound_turn h) Sound.start
      (fits_of_forall (fun _ _ => trivial) turns start) hrun
  constructor
  · intro honce
    constructor
    · have hfits : Fits copy2TempPath Fit turns start ∨ s.Left :=
        fits_or_marked (fun _ _ _ => sound_turn)
          (fun _ m _ h hunfit hturn =>
            .of_unfit h (turn_cases (h.inside m.1) hturn) hunfit)
          (fun _ m _ h hleft hturn => hleft.turned (turn_cases (h.inside m.1) hturn))
          Sound.start hrun
      exact hfits.resolve_right fun hleft => hleft.remains removed honce.none_left
    · by_contra hnot
      obtain ⟨hnone, hremoved⟩ := not_or.1 hnot
      have hleft := honce.none_left
      rw [removeFromTempPath, if_neg hnone, if_neg hremoved] at hleft
      have hmem := hsound.published.resolve_left hnone
      rw [hleft] at hmem
      cases hmem
  · rintro ⟨hfits, hremoved⟩
    have hshared : s.Sound ∧ s.Shared :=
      run_keeps (fun _ _ _ => shared_turn) ⟨Sound.start, Shared.start⟩ hfits hrun
    exact hshared.2.sharedOnce hsound hfinished hremoved

end TempCopies

inductive TempCaller where
  | jStack
  | hdSub
  deriving DecidableEq

open TempCopies

private theorem finished_of_returned {s : TempCopies TempCaller} {name name' : Path}
    {err err' : Option IOError} (hjStack : s.point .jStack = .returned name err)
    (hhdSub : s.point .hdSub = .returned name' err') : s.Finished := by
  intro i
  cases i with
  | jStack => rw [hjStack]; rfl
  | hdSub => rw [hhdSub]; rfl

def copies (i : TempCaller) (name : Path) : List (TempCaller × CopyTurn) :=
  [(i, .next), (i, .next), (i, .next), (i, .create name), (i, .next), (i, .next)]

/-- The second call starts when the first has published its path. -/
def secondReadsLater : List (TempCaller × CopyTurn) :=
  (.jStack, .next) :: copies .jStack "/tmp/yc1" ++ [(.hdSub, .next)]

theorem secondReadsLater_shares : ∃ s,
    run copy2TempPath secondReadsLater start = some s ∧ s.Finished ∧
      s.point .hdSub = .returned "/tmp/yc1" none ∧ s.SharedOnce true := by
  have hpoints : (run copy2TempPath secondReadsLater start).map
      (fun s => (s.point .jStack, s.point .hdSub)) =
        some (.returned "/tmp/yc1" none, .returned "/tmp/yc1" none) := by decide +kernel
  have hfits : Fits copy2TempPath Fit secondReadsLater start := by
    simp [secondReadsLater, copies, Fits, Fit, copy2TempPath, start, goto, leave]
  obtain ⟨s, hrun, hpoint⟩ := Option.map_eq_some_iff.1 hpoints
  obtain ⟨hjStack, hhdSub⟩ := Prod.mk.inj hpoint
  have hfinished := finished_of_returned hjStack hhdSub
  exact ⟨s, hrun, hfinished, hhdSub, (sharedOnce_iff _ s true hrun hfinished).2 ⟨hfits, .inr rfl⟩⟩

/-- Both calls read `tmpPath` before either takes the write lock. -/
def bothRead : List (TempCaller × CopyTurn) :=
  (.jStack, .next) :: (.hdSub, .next) ::
    (copies .jStack "/tmp/yc1" ++ copies .hdSub "/tmp/yc2")

theorem bothRead_two_copies : ∃ s,
    run copy2TempPath bothRead start = some s ∧ s.Finished ∧
      s.point .jStack = .returned "/tmp/yc1" none ∧
      s.point .hdSub = .returned "/tmp/yc2" none ∧
      s.successful = [(.hdSub, "/tmp/yc2"), (.jStack, "/tmp/yc1")] ∧
      s.removeFromTempPath true = ["/tmp/yc1"] ∧ ¬s.SharedOnce true := by
  have hends : (run copy2TempPath bothRead start).map
      (fun s => (s.point .jStack, s.point .hdSub, s.successful, s.removeFromTempPath true)) =
        some (.returned "/tmp/yc1" none, .returned "/tmp/yc2" none,
          [(.hdSub, "/tmp/yc2"), (.jStack, "/tmp/yc1")], ["/tmp/yc1"]) := by decide +kernel
  obtain ⟨s, hrun, hend⟩ := Option.map_eq_some_iff.1 hends
  simp only [Prod.mk.injEq] at hend
  obtain ⟨hjStack, hhdSub, hmade, hleft⟩ := hend
  refine ⟨s, hrun, finished_of_returned hjStack hhdSub, hjStack, hhdSub, hmade, hleft,
    fun honce => ?_⟩
  have hone := honce.one
  rw [hmade] at hone
  simp at hone

end YcAgent.Executils
