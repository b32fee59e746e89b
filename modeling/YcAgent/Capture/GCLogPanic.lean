import YcAgent.Capture.GCFallback

/-!
When `ProcessGCLogFile` panics. `findLatestFileInRotatingLogFiles` sorts the
file infos of its candidates, with a nil among them for each file that has gone
since the directory was listed. `ProcessGCLogFile` compiles the name of the log
as a regular expression once it has listed the directory. What a run has been
answered tells whether it comes to either. What the search for the latest file
returns is compared with the files that were there: the name it has found, in the
directory of the path, need not be the file that has the name.
-/

namespace YcAgent.Capture

open Go Lib.Program

/-- What the host has answered a search for the log: the path that is searched
for, whether a candidate had gone when it was looked at, the latest of them, and
whether the directory has been listed. -/
structure GCSearch where
  base : Option Path
  lost : Bool
  latest : Option FileInfo
  listed : Bool

namespace GCSearch

def start : GCSearch := ⟨none, false, none, false⟩

def sought (g : GCSearch) : Option Path :=
  g.base.map fun base =>
    match g.latest with
    | none => base
    | some info => filepathJoin (filepathDir base) info.name

end GCSearch

/-- The two expressions that are made of the name of a log can be compiled. -/
def Compiles (h : GCHost) (gcPath : Path) : Prop :=
  (h.findSubmatch (filepathBase gcPath ++ "\\.([0-9]+?)\\.current")).isSome = true ∧
    (h.findSubmatch (filepathBase gcPath ++ "\\.([0-9]+)")).isSome = true

/-- A candidate was lost, or the directory was listed for a log whose name
cannot be compiled. -/
def GCSearch.Fails (h : GCHost) (g : GCSearch) : Prop :=
  g.lost = true ∨ g.listed = true ∧ ∃ path, g.sought = some path ∧ ¬Compiles h path

def GCSearch.after (g : GCSearch) (op : GCOp) (r : op.Reply) : GCSearch :=
  match op, r with
  | .fileExists path, _ => { g with base := some path }
  | .lstat _, (info : Option FileInfo) => { g with lost := g.lost || info.isNone }
  | .latestByTime _, ⟨info, _⟩ => { g with latest := some info }
  | .dockerLs _ _, .ok _ => { g with listed := true }
  | .readdirnames _, .ok _ => { g with listed := true }
  | _, _ => g

def searched (h : GCHost) : Ghost GCOp GCOp.Reply GCSearch where
  allowed g op := op = .panic → g.Fails h
  possible _ _ _ := True
  after := GCSearch.after

def unwatched : GCOp → Bool
  | .fileExists _ | .lstat _ | .latestByTime _ | .dockerLs _ _ | .readdirnames _ | .panic => false
  | _ => true

section Follows

variable {h : GCHost} {t : GCTarget} {g : GCSearch}

theorem askGC_searched {α : Type} {op : GCOp} (hop : op ≠ .panic) {k : op.Reply → GCProg α}
    {Q : α → GCSearch → Prop} (hk : ∀ r, (k r).Follows (searched h) (g.after op r) Q) :
    (askGC op >>= k).Follows (searched h) g Q :=
  ⟨fun heq => absurd heq hop, fun r _ => hk r⟩

theorem askGC_unwatched {α : Type} {op : GCOp} (hop : unwatched op = true)
    {k : op.Reply → GCProg α} {Q : α → GCSearch → Prop}
    (hk : ∀ r, (k r).Follows (searched h) g Q) : (askGC op >>= k).Follows (searched h) g Q := by
  apply askGC_searched
  · intro heq
    rw [heq] at hop
    cases hop
  · intro r
    have hafter : g.after op r = g := by
      cases op <;> first | rfl | cases hop
    rw [hafter]
    exact hk r

theorem copyFile_unwatched (file : Path) (pid : Int) :
    (copyFile h file pid).Follows (searched h) g fun _ g' => g' = g := by
  unfold copyFile
  apply askGC_unwatched rfl
  intro r
  cases r with
  | none => exact askGC_unwatched (k := .done) rfl fun _ => rfl
  | some err =>
    dsimp only
    split
    · rfl
    · apply askGC_unwatched rfl
      intro r
      cases r with
      | none => exact askGC_unwatched (k := .done) rfl fun _ => rfl
      | some err => rfl

theorem collectLog_unwatched (log : Path) (suffix : String) :
    (collectLog h t log suffix).Follows (searched h) g fun _ g' => g' = g := by
  unfold collectLog
  split
  · apply askGC_unwatched rfl
    intro r
    cases r with
    | some err => rfl
    | none => exact copyFile_unwatched _ t.pid
  · exact copyFile_unwatched log t.pid

theorem collectRotated_unwatched (preLog : Option Path) (curLog : Path) :
    (collectRotated h t preLog curLog).Follows (searched h) g fun out g' =>
      out.file = true ∧ g' = g := by
  unfold collectRotated
  split
  · rw [Prog.follows_bind]
    exact (collectLog_unwatched curLog ".cur").mono fun _ _ h => ⟨rfl, h⟩
  · rw [Prog.follows_bind]
    apply (collectLog_unwatched _ ".pre").mono
    intro _ g' hsame
    rw [Prog.follows_bind, hsame]
    exact (collectLog_unwatched curLog ".cur").mono fun _ _ h => ⟨rfl, h⟩

theorem listLogs_searched (dir : Path) :
    (listLogs t dir).Follows (searched h) g fun out g' =>
      match out with
      | .ok _ => g' = { g with listed := true }
      | .error _ => g' = g := by
  unfold listLogs
  split
  · apply askGC_searched (by simp)
    intro r
    cases r with
    | error err => rfl
    | ok lines => rfl
  · apply askGC_unwatched rfl
    intro r
    cases r with
    | some err => rfl
    | none =>
      apply askGC_searched (by simp)
      intro r
      cases r with
      | error err => rfl
      | ok names => rfl

/-- The search has come to an end: there is a file or an error, and nothing to
panic for. -/
def SearchSettled (h : GCHost) (out : GCOutcome) (g : GCSearch) : Prop :=
  (out.file = true ∨ out.err ≠ none) ∧ ¬g.Fails h

theorem processRotated_searched {gcPath : Path} {gc : Bool} (names : List Bytes)
    (hkept : g.lost = false) (hlisted : g.listed = true) (hsought : g.sought = some gcPath) :
    (processRotated h t gcPath gc names).Follows (searched h) g (SearchSettled h) := by
  unfold processRotated
  dsimp only
  split
  · next re reo hre hreo =>
      have hfine : ¬g.Fails h := by
        rintro (hlost | ⟨_, path, hpath, hnot⟩)
        · rw [hkept] at hlost
          cases hlost
        · rw [hsought] at hpath
          cases hpath
          exact hnot ⟨by rw [hre]; rfl, by rw [hreo]; rfl⟩
      have hcollect (preLog : Option Path) (curLog : Path) :
          (collectRotated h t preLog curLog).Follows (searched h) g (SearchSettled h) := by
        apply (collectRotated_unwatched preLog curLog).mono
        intro out g' hout
        rw [hout.2]
        exact ⟨.inl hout.1, hfine⟩
      split
      · exact ⟨.inr (Option.some_ne_none _), hfine⟩
      · split
        · exact ⟨.inr (Option.some_ne_none _), hfine⟩
        · split
          · exact hcollect _ _
          · apply askGC_unwatched rfl
            intro r
            cases r with
            | some err => exact ⟨.inr (Option.some_ne_none _), hfine⟩
            | none => exact hcollect _ _
  · next hnone =>
      refine ⟨fun _ => .inr ⟨hlisted, gcPath, hsought, fun hcompiles => ?_⟩, fun r _ => r.elim⟩
      obtain ⟨re, hre⟩ := Option.isSome_iff_exists.mp hcompiles.1
      obtain ⟨reo, hreo⟩ := Option.isSome_iff_exists.mp hcompiles.2
      exact hnone re reo hre hreo

private theorem not_fails_of_unlisted (h : GCHost) (hkept : g.lost = false)
    (hlisted : g.listed = false) :
    ¬g.Fails h := by
  rintro (hlost | ⟨htrue, _⟩)
  · rw [hkept] at hlost
    cases hlost
  · rw [hlisted] at htrue
    cases htrue

theorem processMissing_searched {gcPath : Path} {gc : Bool} (err : FsError)
    (hkept : g.lost = false) (hlisted : g.listed = false) (hsought : g.sought = some gcPath) :
    (processMissing h t gcPath gc err).Follows (searched h) g (SearchSettled h) := by
  have hfine := not_fails_of_unlisted h hkept hlisted
  unfold processMissing
  split
  · exact ⟨.inr (Option.some_ne_none _), hfine⟩
  · rw [Prog.follows_bind]
    apply (listLogs_searched _).mono
    intro out g' hout
    cases out with
    | error err =>
      rw [show g' = g from hout]
      exact ⟨.inr (Option.some_ne_none _), hfine⟩
    | ok names =>
      rw [show g' = _ from hout]
      exact processRotated_searched names hkept rfl hsought

theorem processResolved_searched {gcPath : Path}
    (hkept : g.lost = false) (hlisted : g.listed = false) (hsought : g.sought = some gcPath) :
    (processResolved h t gcPath).Follows (searched h) g (SearchSettled h) := by
  have hfine := not_fails_of_unlisted h hkept hlisted
  unfold processResolved
  split
  · apply askGC_unwatched rfl
    intro r
    cases r with
    | some err => exact processMissing_searched err hkept hlisted hsought
    | none =>
      apply askGC_unwatched rfl
      intro r
      cases r with
      | none => exact ⟨.inl rfl, hfine⟩
      | some err => exact ⟨.inr (Option.some_ne_none _), hfine⟩
  · apply askGC_unwatched rfl
    intro r
    cases r with
    | some err => exact ⟨.inr (Option.some_ne_none _), hfine⟩
    | none =>
      apply (Prog.follows_bind _ _ _ _).mpr
      apply (copyFile_unwatched gcPath t.pid).mono
      intro err g' hsame
      rw [hsame]
      cases err with
      | none => exact ⟨.inl rfl, hfine⟩
      | some err => exact processMissing_searched err hkept hlisted hsought

theorem getLatestFileFromGlobPattern_unwatched (globPattern : Path) :
    (getLatestFileFromGlobPattern globPattern).Follows (searched h) g fun _ g' => g' = g := by
  apply askGC_unwatched rfl
  intro r
  match r with
  | .error err => rfl
  | .ok [] => rfl
  | .ok (file :: files) => exact askGC_unwatched rfl fun _ => rfl

theorem resolvePlaceholders_unwatched (gcPath : Path) (pid : Int) :
    (resolvePlaceholders gcPath pid).Follows (searched h) g fun _ g' => g' = g := by
  unfold resolvePlaceholders
  split
  · rfl
  · dsimp only
    rw [Prog.follows_bind]
    apply (getLatestFileFromGlobPattern_unwatched _).mono
    intro latest g' hsame
    rw [hsame]
    cases latest with
    | ok latestFile => rfl
    | error err =>
      apply (Prog.follows_bind _ _ _ _).mpr
      apply (getLatestFileFromGlobPattern_unwatched _).mono
      intro latest g' hsame
      rw [hsame]
      cases latest <;> rfl

theorem lstatAll_searched (paths : List Path) :
    (lstatAll paths).Follows (searched h) g fun infos g' =>
      g' = { g with lost := g.lost || infos.any Option.isNone } := by
  induction paths generalizing g with
  | nil => simp [lstatAll, Prog.Follows]
  | cons path paths ih =>
    apply askGC_searched (by simp)
    intro info
    apply (Prog.follows_bind _ _ _ _).mpr
    apply ih.mono
    rintro infos _ rfl
    exact congrArg (fun lost => { g with lost := lost }) (Bool.or_assoc _ _ _)

structure Chosen (path : Path) (g : GCSearch) : Prop where
  kept : g.lost = false
  sought : g.sought = some path
  listed : g.listed = false

private theorem mapM_id_eq_some {α : Type} {xs : List (Option α)} {ys : List α}
    (h : xs.mapM id = some ys) : xs = ys.map some := by
  induction xs generalizing ys with
  | nil =>
    cases h
    rfl
  | cons x xs ih =>
    rw [List.mapM_cons] at h
    obtain ⟨y, hy, hrest⟩ := Option.bind_eq_some_iff.mp h
    obtain ⟨more, hmore, hys⟩ := Option.bind_eq_some_iff.mp hrest
    cases hys
    rw [List.map_cons, ← ih hmore, show x = some y from hy]

private theorem none_mem_of_mapM_id {α : Type} {xs : List (Option α)}
    (h : xs.mapM id = none) : none ∈ xs := by
  induction xs with
  | nil => cases h
  | cons x xs ih =>
    cases x with
    | none => exact List.mem_cons_self
    | some y =>
      rw [List.mapM_cons] at h
      apply List.mem_cons_of_mem
      apply ih
      cases hmore : xs.mapM id with
      | none => rfl
      | some more =>
        rw [hmore] at h
        cases h

theorem findLatestFileInRotatingLogFiles_searched (gcPath : Path) :
    (findLatestFileInRotatingLogFiles gcPath).Follows (searched h) .start Chosen := by
  unfold findLatestFileInRotatingLogFiles
  apply askGC_unwatched rfl
  intro globbed
  apply askGC_searched (by simp)
  intro (exist : Bool)
  cases globbed with
  | error err => exact ⟨rfl, rfl, rfl⟩
  | ok globbed =>
    apply (Prog.follows_bind _ _ _ _).mpr
    apply (lstatAll_searched _).mono
    rintro infos _ rfl
    unfold latestOf
    split
    · next hmapM =>
        have hmem := none_mem_of_mapM_id hmapM
        have hlost : infos.any Option.isNone = true := List.any_eq_true.2 ⟨none, hmem, rfl⟩
        exact ⟨fun _ => .inl hlost, fun r _ => r.elim⟩
    · next hmapM =>
        obtain rfl : infos = [] := mapM_id_eq_some hmapM
        exact ⟨rfl, rfl, rfl⟩
    · next info rest hmapM =>
        have hkept : infos.any Option.isNone = false := by
          rw [mapM_id_eq_some hmapM]
          simp
        apply askGC_searched (by simp)
        intro chosen
        exact ⟨hkept, rfl, rfl⟩

theorem processGCLogFile_searched {gcPath : Path} (hpath : gcPath ≠ "") :
    (processGCLogFile h gcPath t).Follows (searched h) .start (SearchSettled h) := by
  unfold processGCLogFile
  rw [if_neg hpath, Prog.follows_bind]
  apply (resolvePlaceholders_unwatched gcPath t.pid).mono
  intro base g' hsame
  rw [hsame, Prog.follows_bind]
  apply (findLatestFileInRotatingLogFiles_searched base).mono
  intro path g' hchosen
  exact processResolved_searched hchosen.kept hchosen.listed hchosen.sought

end Follows

/-- A run that has come to its end: it has returned, or it panics. -/
structure GCRun {α : Type} (answers : (op : GCOp) → Unit → op.Reply → Unit → Prop)
    (p : GCProg α) where
  trace : GCTrace
  rest : GCProg α
  steps : Steps (.alone answers) p () trace rest ()
  ended : (∃ a, rest = .done a) ∨ ∃ next, rest = .act .panic next

def GCRun.search {p : GCProg GCOutcome} (run : GCRun Answers p) : GCSearch :=
  run.trace.foldl (fun g e => g.after e.op e.reply) .start

/-- The run has returned, with a file or with an error. -/
def GCRun.Returned {p : GCProg GCOutcome} (run : GCRun Answers p) : Prop :=
  ∃ out, run.rest = .done out ∧ (out.file = true ∨ out.err ≠ none)

/-- The files as a search finds them: what a pattern matches, whether a path is that
of a file, and when a file was modified, if it is still there when it is looked at.
The path of a file ends with a name. -/
structure LogFiles where
  glob : Path → Except String (List Path)
  isFile : Path → Bool
  modTime : Path → Option Int
  glob_named : ∀ pattern files, glob pattern = .ok files →
    ∀ c ∈ files, PlainName (baseName c).toList
  file_named : ∀ path, isFile path = true → PlainName (baseName path).toList

namespace LogFiles

def lstat (d : LogFiles) (path : Path) : Option FileInfo :=
  (d.modTime path).map (FileInfo.mk (baseName path))

/-- A pattern, a look for a file and a look at its times are answered by the files. All
other operations may be answered in any way. -/
def Answers (d : LogFiles) : (op : GCOp) → Unit → op.Reply → Unit → Prop
  | .glob pattern, _, r, _ => r = d.glob pattern
  | .fileExists path, _, r, _ => r = d.isFile path
  | .lstat path, _, r, _ => r = d.lstat path
  | _, _, _, _ => True

/-- The rotated files and the path itself, if it is a file. There are none if the
pattern cannot be used. -/
def candidates (d : LogFiles) (gcPath : Path) : List Path :=
  match d.glob (gcPath ++ ".*") with
  | .error _ => []
  | .ok globbed => if d.isFile gcPath then globbed ++ [gcPath] else globbed

/-- A most recently modified one of the candidates that still exist. -/
def Latest (d : LogFiles) (gcPath c : Path) : Prop :=
  c ∈ d.candidates gcPath ∧ ∃ time, d.modTime c = some time ∧
    ∀ c' ∈ d.candidates gcPath, ∀ time', d.modTime c' = some time' → time' ≤ time

/-- What the search is to return: the path of a latest candidate, or the given one
if no candidate exists any more. -/
def IsLatest (d : LogFiles) (gcPath path : Path) : Prop :=
  ((∀ c ∈ d.candidates gcPath, d.modTime c = none) ∧ path = gcPath) ∨
    ∃ c, d.Latest gcPath c ∧ path = filepathClean c

/-- No candidate goes away between the listing and the look at its times. -/
def Kept (d : LogFiles) (gcPath : Path) : Prop := ∀ c ∈ d.candidates gcPath, d.modTime c ≠ none

/-- The directory of the latest candidate is that of the path. Of several with one
modification time, each has one of its name there. -/
def Beside (d : LogFiles) (gcPath : Path) : Prop :=
  ∀ c, d.Latest gcPath c → ∃ c', d.Latest gcPath c' ∧ filepathDir c' = filepathDir gcPath ∧
    baseName c' = baseName c

variable {d : LogFiles} {gcPath : Path}

theorem candidate_named {c : Path} (hc : c ∈ d.candidates gcPath) :
    PlainName (baseName c).toList := by
  unfold candidates at hc
  cases hglob : d.glob (gcPath ++ ".*") with
  | error err =>
    rw [hglob] at hc
    cases hc
  | ok globbed =>
    simp only [hglob] at hc
    split at hc
    · next hfile =>
        rcases List.mem_append.1 hc with hc | hc
        · exact d.glob_named _ _ hglob c hc
        · rw [List.mem_singleton.1 hc]
          exact d.file_named gcPath hfile
    · exact d.glob_named _ _ hglob c hc

/-- Where a candidate's name would be in the directory of the path. -/
theorem join_eq_clean_iff {c c' : Path} (hc : c ∈ d.candidates gcPath)
    (hc' : c' ∈ d.candidates gcPath) :
    filepathJoin (filepathDir gcPath) (baseName c) = filepathClean c' ↔
      filepathDir c' = filepathDir gcPath ∧ baseName c' = baseName c := by
  have hiff := filepathJoin_eq_clean_iff gcPath (candidate_named hc) (candidate_named hc')
  rwa [String.ofList_toList, String.toList_inj] at hiff

theorem mem_infos_iff {infos : List FileInfo}
    (hinfos : (d.candidates gcPath).map d.lstat = infos.map some) (info : FileInfo) :
    info ∈ infos ↔ ∃ c ∈ d.candidates gcPath,
      d.modTime c = some info.modTime ∧ info.name = baseName c := by
  rw [← List.mem_map_of_injective (Option.some_injective _), ← hinfos, List.mem_map]
  refine exists_congr fun c => and_congr_right fun _ => ?_
  obtain ⟨name, time⟩ := info
  rw [lstat, Option.map_eq_some_iff]
  constructor
  · rintro ⟨time', htime, heq⟩
    cases heq
    exact ⟨htime, rfl⟩
  · rintro ⟨htime, rfl⟩
    exact ⟨time, htime, rfl⟩

theorem latest_of_info {info : FileInfo} {infos : List FileInfo}
    (hinfos : (d.candidates gcPath).map d.lstat = infos.map some) (hmem : info ∈ infos)
    (hmax : ∀ other ∈ infos, other.modTime ≤ info.modTime) :
    ∃ c, d.Latest gcPath c ∧ info.name = baseName c := by
  obtain ⟨c, hc, htime, hname⟩ := (mem_infos_iff hinfos info).1 hmem
  refine ⟨c, ⟨hc, info.modTime, htime, fun c' hc' time' htime' => ?_⟩, hname⟩
  exact hmax ⟨baseName c', time'⟩ ((mem_infos_iff hinfos _).2 ⟨c', hc', htime', rfl⟩)

theorem info_of_latest {infos : List FileInfo}
    (hinfos : (d.candidates gcPath).map d.lstat = infos.map some) {c : Path}
    (hc : d.Latest gcPath c) :
    ∃ info ∈ infos, info.name = baseName c ∧ ∀ other ∈ infos, other.modTime ≤ info.modTime := by
  obtain ⟨hmem, time, htime, hmax⟩ := hc
  have hinfo := (mem_infos_iff hinfos ⟨baseName c, time⟩).2 ⟨c, hmem, htime, rfl⟩
  refine ⟨_, hinfo, rfl, fun other hother => ?_⟩
  obtain ⟨c', hc', htime', -⟩ := (mem_infos_iff hinfos other).1 hother
  exact hmax c' hc' _ htime'

/-- A run among these files does not panic. -/
def search (d : LogFiles) : Ghost GCOp GCOp.Reply Unit where
  allowed _ op := op ≠ .panic
  possible _ op r := d.Answers op () r ()
  after _ _ _ := ()

theorem ask_bind {α : Type} {op : GCOp} (hop : op ≠ .panic) {k : op.Reply → GCProg α}
    {Q : α → Unit → Prop} (hk : ∀ r, d.Answers op () r () → (k r).Follows d.search () Q) :
    (askGC op >>= k).Follows d.search () Q := ⟨hop, hk⟩

theorem lstatAll_follows (paths : List Path) :
    (lstatAll paths).Follows d.search () fun infos _ => infos = paths.map d.lstat := by
  induction paths with
  | nil => rfl
  | cons path paths ih =>
    apply ask_bind GCOp.noConfusion
    rintro _ rfl
    apply (Prog.follows_bind _ _ _ _).mpr
    apply ih.mono
    rintro infos _ rfl
    rfl

theorem latestOf_follows (hkept : d.Kept gcPath) (hbeside : d.Beside gcPath) :
    (latestOf gcPath ((d.candidates gcPath).map d.lstat)).Follows d.search () fun path _ =>
      d.IsLatest gcPath path := by
  unfold latestOf
  split
  · next hmapM =>
      obtain ⟨c, hc, hlstat⟩ := List.mem_map.1 (none_mem_of_mapM_id hmapM)
      exact absurd (Option.map_eq_none_iff.1 hlstat) (hkept c hc)
  · next hmapM =>
      have hnone : d.candidates gcPath = [] := List.map_eq_nil_iff.1 (mapM_id_eq_some hmapM)
      exact .inl ⟨by simp [hnone], rfl⟩
  · next info rest hmapM =>
      apply ask_bind GCOp.noConfusion
      rintro ⟨chosen, hmem, hmax⟩ -
      obtain ⟨c, hc, hname⟩ := latest_of_info (mapM_id_eq_some hmapM) hmem hmax
      obtain ⟨c', hc', hplace⟩ := hbeside c hc
      refine .inr ⟨c', hc', ?_⟩
      change filepathJoin (filepathDir gcPath) chosen.name = filepathClean c'
      rw [hname]
      exact (join_eq_clean_iff hc.1 hc'.1).2 hplace

theorem find_follows (hkept : d.Kept gcPath) (hbeside : d.Beside gcPath) :
    (findLatestFileInRotatingLogFiles gcPath).Follows d.search () fun path _ =>
      d.IsLatest gcPath path := by
  apply ask_bind GCOp.noConfusion
  rintro _ rfl
  apply ask_bind GCOp.noConfusion
  rintro _ rfl
  have hlatest := latestOf_follows hkept hbeside
  unfold candidates at hlatest
  cases hglob : d.glob (gcPath ++ ".*") with
  | error err => exact .inl ⟨by simp [candidates, hglob], rfl⟩
  | ok globbed =>
    rw [hglob] at hlatest
    apply (Prog.follows_bind _ _ _ _).mpr
    apply (lstatAll_follows _).mono
    rintro infos _ rfl
    exact hlatest

def Leads {α : Type} (d : LogFiles) (p rest : GCProg α) : Prop :=
  ∃ trace, Steps (.alone d.Answers) p () trace rest ()

theorem Leads.ask {α : Type} (op : GCOp) {k : op.Reply → GCProg α} {rest : GCProg α}
    (r : op.Reply) (hr : d.Answers op () r ()) (hrest : d.Leads (k r) rest) :
    d.Leads (askGC op >>= k) rest := by
  obtain ⟨trace, hsteps⟩ := hrest
  exact ⟨_, .act .refl hr hsteps⟩

theorem Leads.lstatAll {α : Type} {paths : List Path} {k : List (Option FileInfo) → GCProg α}
    {rest : GCProg α} (h : d.Leads (k (paths.map d.lstat)) rest) :
    d.Leads (lstatAll paths >>= k) rest := by
  induction paths generalizing k with
  | nil => exact h
  | cons path paths ih =>
    refine Leads.ask (.lstat path) (d.lstat path) rfl ?_
    change d.Leads
      ((Capture.lstatAll paths >>= fun infos => pure (d.lstat path :: infos)) >>= k) rest
    rw [Prog.bind_assoc]
    exact ih h

/-- Whether the search panics or returns is decided by its candidates. -/
theorem Leads.latestOf {globbed : List Path} {rest : GCProg Path}
    (hglob : d.glob (gcPath ++ ".*") = .ok globbed)
    (h : d.Leads (latestOf gcPath ((d.candidates gcPath).map d.lstat)) rest) :
    d.Leads (findLatestFileInRotatingLogFiles gcPath) rest := by
  refine Leads.ask (.glob (gcPath ++ ".*")) _ rfl ?_
  refine Leads.ask (.fileExists gcPath) (d.isFile gcPath) rfl ?_
  rw [candidates, hglob] at h
  rw [hglob]
  exact Leads.lstatAll h

end LogFiles

section Runs

variable {h : GCHost} {t : GCTarget} {gcPath : Path}

private theorem searched_describes :
    (searched h).Describes (.alone Answers) fun (_ : Unit) _ => True :=
  ⟨fun _ _ _ _ _ _ _ _ => ⟨trivial, trivial⟩, fun _ _ _ _ _ => trivial⟩

theorem GCRun.follows {p : GCProg GCOutcome} {Q : GCOutcome → GCSearch → Prop}
    (run : GCRun Answers p) (hp : p.Follows (searched h) .start Q) :
    (∃ a, run.rest = .done a ∧ Q a run.search) ∨
      ((∃ next, run.rest = .act .panic next) ∧ run.search.Fails h) := by
  have hrest := run.steps.follows_rest searched_describes hp trivial
  rcases run.ended with ⟨a, ha⟩ | ⟨next, hnext⟩
  · rw [ha] at hrest
    exact .inl ⟨a, ha, hrest⟩
  · rw [hnext] at hrest
    exact .inr ⟨⟨next, hnext⟩, hrest.1 rfl⟩

theorem GCRun.returned_iff (run : GCRun Answers (processGCLogFile h gcPath t)) :
    run.Returned ↔ gcPath ≠ "" ∧ ¬run.search.Fails h := by
  by_cases hpath : gcPath = ""
  · have hneither : (processGCLogFile h gcPath t).Follows (searched h) .start
        fun out _ => out = ⟨false, none⟩ := by
      unfold processGCLogFile
      rw [if_pos hpath]
      rfl
    refine iff_of_false ?_ fun hboth => hboth.1 hpath
    rintro ⟨out, hout, hany⟩
    rcases run.follows hneither with ⟨_, hout', rfl⟩ | ⟨⟨next, hnext⟩, _⟩
    · rw [hout] at hout'
      cases hout'
      simp at hany
    · rw [hnext] at hout
      cases hout
  · rcases run.follows (processGCLogFile_searched hpath) with
      ⟨out, hout, hany, hfine⟩ | ⟨⟨next, hnext⟩, hfails⟩
    · exact iff_of_true ⟨out, hout, hany⟩ ⟨hpath, hfine⟩
    · refine iff_of_false ?_ fun hboth => hboth.2 hfails
      rintro ⟨out, hout, _⟩
      rw [hnext] at hout
      cases hout

theorem LogFiles.isLatest_iff (d : LogFiles) (gcPath : Path) :
    (∀ run : GCRun d.Answers (findLatestFileInRotatingLogFiles gcPath),
      ∃ path, run.rest = .done path ∧ d.IsLatest gcPath path) ↔
      d.Kept gcPath ∧ d.Beside gcPath := by
  constructor
  · intro hall
    cases hglob : d.glob (gcPath ++ ".*") with
    | error err =>
      have hnone : d.candidates gcPath = [] := by rw [candidates, hglob]
      exact ⟨by simp [Kept, hnone], fun c hc => by simp [Latest, hnone] at hc⟩
    | ok globbed =>
      have hleads (rest : GCProg Path) (hrest : d.Leads (latestOf gcPath
          ((d.candidates gcPath).map d.lstat)) rest)
          (hended : (∃ a, rest = .done a) ∨ ∃ next, rest = .act .panic next) :
          ∃ path, rest = .done path ∧ d.IsLatest gcPath path := by
        obtain ⟨trace, hsteps⟩ := Leads.latestOf hglob hrest
        exact hall ⟨trace, rest, hsteps, hended⟩
      unfold latestOf at hleads
      split at hleads
      · obtain ⟨path, hpath, _⟩ := hleads _ ⟨[], .rest .refl⟩ (.inr ⟨_, rfl⟩)
        cases hpath
      · next hmapM =>
          have hnone : d.candidates gcPath = [] := List.map_eq_nil_iff.1 (mapM_id_eq_some hmapM)
          exact ⟨by simp [Kept, hnone], fun c hc => by simp [Latest, hnone] at hc⟩
      · next first rest hmapM =>
          have hinfos := mapM_id_eq_some hmapM
          refine ⟨fun c hc hgone => ?_, fun c hc => ?_⟩
          · have hmem : d.lstat c ∈ (d.candidates gcPath).map d.lstat := List.mem_map_of_mem hc
            rw [hinfos, lstat, hgone] at hmem
            simp at hmem
          · obtain ⟨info, hinfo, hname, hmax⟩ := info_of_latest hinfos hc
            obtain ⟨path, hpath, hlatest⟩ := hleads
              (.done (filepathJoin (filepathDir gcPath) info.name))
              (.ask (.latestByTime (first :: rest)) ⟨info, hinfo, hmax⟩ trivial
                ⟨[], .rest .refl⟩) (.inl ⟨_, rfl⟩)
            rw [← Prog.done.inj hpath, hname] at hlatest
            rcases hlatest with ⟨hgone, _⟩ | ⟨c', hc', hclean⟩
            · obtain ⟨time, htime, _⟩ := hc.2
              rw [hgone c hc.1] at htime
              cases htime
            · exact ⟨c', hc', (join_eq_clean_iff hc.1 hc'.1).1 hclean⟩
  · rintro ⟨hkept, hbeside⟩ run
    have hdescribes : d.search.Describes (.alone d.Answers) fun (_ : Unit) _ => True :=
      ⟨fun _ _ _ _ _ _ _ hanswers => ⟨hanswers, trivial⟩, fun _ _ _ _ _ => trivial⟩
    have hrest := run.steps.follows_rest hdescribes (find_follows hkept hbeside) trivial
    rcases run.ended with ⟨path, hpath⟩ | ⟨next, hnext⟩
    · rw [hpath] at hrest
      exact ⟨path, hpath, hrest⟩
    · rw [hnext] at hrest
      exact absurd rfl hrest.1

/-- `ProcessGCLogFile` returns a file or an error unless a candidate has gone, or the
name of a log that is looked for in its directory cannot be compiled. The search
for the latest file returns the latest candidate that exists, among all files and
however a sort orders those of one time, if and only if no candidate has gone and
the latest one is in the directory of the path. -/
theorem gc_search_returns_iff (h : GCHost) (gcPath : Path) (t : GCTarget) :
    (∀ run : GCRun Answers (processGCLogFile h gcPath t),
      run.Returned ↔ gcPath ≠ "" ∧ ¬run.search.Fails h) ∧
    ∀ d : LogFiles, (∀ run : GCRun d.Answers (findLatestFileInRotatingLogFiles gcPath),
      ∃ path, run.rest = .done path ∧ d.IsLatest gcPath path) ↔
        d.Kept gcPath ∧ d.Beside gcPath :=
  ⟨GCRun.returned_iff, fun d => d.isLatest_iff gcPath⟩

def rotatedLogs : LogFiles where
  glob _ := .ok ["/var/log/gc.log.0", "/var/log/gc.log.1"]
  isFile _ := false
  modTime path := some (if path = "/var/log/gc.log.1" then 20 else 10)
  glob_named := by
    rintro pattern files ⟨⟩ c hc
    simp only [List.mem_cons, List.not_mem_nil, or_false] at hc
    rcases hc with rfl | rfl
    · exact ⟨by decide, by decide, by decide, by decide⟩
    · exact ⟨by decide, by decide, by decide, by decide⟩
  file_named := by simp

theorem latest_rotated_found :
    rotatedLogs.Latest "/var/log/gc.log" "/var/log/gc.log.1" ∧
    ∀ run : GCRun rotatedLogs.Answers (findLatestFileInRotatingLogFiles "/var/log/gc.log"),
      ∃ path, run.rest = .done path ∧ rotatedLogs.IsLatest "/var/log/gc.log" path := by
  have hcandidates : rotatedLogs.candidates "/var/log/gc.log" =
      ["/var/log/gc.log.0", "/var/log/gc.log.1"] := rfl
  have hbeside : rotatedLogs.Beside "/var/log/gc.log" := by
    intro c hc
    have hmem := hc.1
    rw [hcandidates] at hmem
    simp only [List.mem_cons, List.not_mem_nil, or_false] at hmem
    refine ⟨c, hc, ?_, rfl⟩
    rcases hmem with rfl | rfl
    · decide +kernel
    · decide +kernel
  have hkept : rotatedLogs.Kept "/var/log/gc.log" := fun c hc => Option.some_ne_none _
  refine ⟨⟨by simp [hcandidates], 20, rfl, ?_⟩,
    ((gc_search_returns_iff plainHost "/var/log/gc.log" gcTarget).2 rotatedLogs).mpr
      ⟨hkept, hbeside⟩⟩
  rintro c hc time ⟨⟩
  split <;> decide

/-- The directory has a rotated log when it is listed, and no longer when the
log is looked at. -/
def rotatingHost : (op : GCOp) → Unit → Option (op.Reply × Unit)
  | .glob _, _ => some (.ok ["gc.log.1"], ())
  | .fileExists _, _ => some (false, ())
  | .lstat _, _ => some (none, ())
  | _, _ => none

private theorem exists_panic {p : GCProg GCOutcome} (n : Nat)
    (host : (op : GCOp) → Unit → Option (op.Reply × Unit))
    (hdrive : ∃ out, drive p () (List.replicate n (.answer host)) = some out ∧
      ∃ next, out.2.1 = .act .panic next) : ∃ run : GCRun Answers p, ¬run.Returned := by
  have hsound : ∀ m ∈ List.replicate n (Move.answer host), m.Sound (.alone Answers) := by
    intro m hm
    rw [List.eq_of_mem_replicate hm]
    exact fun _ _ _ _ _ => trivial
  obtain ⟨⟨trace, rest, w⟩, hdrive, next, hnext⟩ := hdrive
  have hsteps := drive_steps hsound hdrive
  refine ⟨⟨trace, rest, hsteps, .inr ⟨next, hnext⟩⟩, ?_⟩
  rintro ⟨out, hout, _⟩
  rw [show rest = _ from hout] at hnext
  cases hnext

/-- A log that is rotated away, and one that is missing and has a parenthesis in
its name. -/
theorem gc_search_panics :
    (∃ run : GCRun Answers (processGCLogFile plainHost "gc.log" gcTarget), ¬run.Returned) ∧
      ∃ run : GCRun Answers (processGCLogFile { plainHost with findSubmatch := fun _ => none }
        "gc(.log" gcTarget), ¬run.Returned :=
  ⟨exists_panic 3 rotatingHost ⟨_, rfl, _, rfl⟩,
    exists_panic 7 (sampleGCHost false true) ⟨_, rfl, _, rfl⟩⟩

end Runs

end YcAgent.Capture
