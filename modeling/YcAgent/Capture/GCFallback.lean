import YcAgent.Capture.GCLog

/-!
What `GC.Run` and `uploadGCLogM3` do with what `ProcessGCLogFile` returns. The
one goes on to other ways of getting a GC log if there is no file, the other
also if there is an error. The two differ on the exits that return both, and
these are told by what the host answered: the output file was created, the last
copy into it failed, and it was not the listing of the log's directory that
failed.
-/

namespace YcAgent.Capture

open Go Lib.Program

structure GCConfig where
  minimalTouch : Bool
  executable : Path

/-- What the fallbacks of `GC.Run` end with: a file or not, or an early return
with an error. -/
def gcAttempts (c : GCConfig) (out : Path) (pid : Int) : GCProg (Except FsError Bool) := do
  match ← askGC (.jstat out pid) with
  | none => return .ok true
  | some _ =>
  match ← askGC (.jattach c.executable out pid) with
  | none => return .ok true
  | some _ =>
  match ← askGC .copy2TempPath with
  | .error err => return .error err
  | .ok tempPath => return .ok (Option.isNone (← askGC (.jattach tempPath out pid)))

def gcPost (hasFile : Bool) (gcPath : Path) : GCProg (Result × Option FsError) := do
  let result : Result ← askGC (.post hasFile)
  match ← askGC (.absPath gcPath) with
  | .error err =>
    let msg := result.msg ++ s!"\n\nGC Path: path {gcPath}: {err.text}"
    return ({ result with msg := msg }, some err)
  | .ok absGCPath =>
    return ({ result with msg := result.msg ++ s!"\n\nGC Path: {absGCPath}" }, none)

/-- `GC.Run` after `ProcessGCLogFile`. -/
def gcRunWith (c : GCConfig) (gcPath : Path) (pid : Int) (gc : GCOutcome) :
    GCProg (Result × Option FsError) := do
  if gc.file ∨ pid ≤ 0 then gcPost gc.file gcPath
  else if c.minimalTouch then gcPost false gcPath
  else
    match ← gcAttempts c "gc.log" pid with
    | .error err => return (⟨"", false⟩, some err)
    | .ok true => gcPost true "gc.log"
    | .ok false => gcPost false gcPath

def gcRun (h : GCHost) (c : GCConfig) (gcPath : Path) (dockerID : String) (pid : Int) :
    GCProg (Result × Option FsError) := do
  let gc ← processGCLogFile h gcPath ⟨"gc.log", dockerID, pid⟩
  gcRunWith c gcPath pid gc

/-- What a command started in the background leaves: its output file, the
command, which may be there without having been started, and the error. -/
structure GCStarted where
  file : Bool
  cmd : Bool
  err : Option FsError

def captureGC (gc : Bool) (fn : Path) (pid : Int) : GCProg GCStarted := do
  if gc then
    match ← askGC .closeOut with
    | some err => return ⟨false, false, some err⟩
    | none =>
      match ← askGC (.removeOut fn) with
      | some err => return ⟨false, false, some err⟩
      | none =>
        let err ← askGC (.startJattach fn pid)
        return ⟨Option.isNone err, true, err⟩
  else
    let err ← askGC (.startJattach fn pid)
    return ⟨Option.isNone err, true, err⟩

def postM3 (hasFile : Bool) (gcPath : Path) : GCProg Path := do
  let _ ← askGC (.post hasFile)
  let _ ← askGC (.absPath gcPath)
  return gcPath

/-- The wait for the command. A `jstat` that fails is followed by `captureGC`; a
command that was not made cannot be waited for. -/
def awaitM3 (fn : Path) (pid : Int) (gc triedJAttachGC : Bool) (gcPath : Path) : GCProg Path := do
  match ← askGC .wait with
  | none => postM3 gc gcPath
  | some _ =>
    if triedJAttachGC then postM3 gc gcPath else
    let started ← captureGC gc fn pid
    if !started.cmd then return (← askGC .panic).elim else
    let _ ← askGC .wait
    postM3 started.file (if started.err = none then fn else gcPath)

/-- `uploadGCLogM3` after `ProcessGCLogFile`. -/
def uploadGCLogM3With (c : GCConfig) (gcPath fn : Path) (pid : Int) (gc : GCOutcome) :
    GCProg Path := do
  if gc.file ∧ gc.err = none then postM3 true gcPath
  else if c.minimalTouch then postM3 gc.file gcPath
  else
    match ← askGC (.startJstat fn pid) with
    | none => awaitM3 fn pid true false fn
    | some _ =>
      let started ← captureGC false fn pid
      awaitM3 fn pid started.file true (if started.err = none then fn else gcPath)

/-- The path of the process's GC log, where the capture command gave none. -/
def foundGCLogFile (pid : Int) : GCProg Path := do
  match ← askGC (.getGCLogFile pid) with
  | .ok output => return output
  | .error _ => return ""

def m3GCPath (pid : Int) : Except FsError Path → GCProg Path
  | .ok path => if path ≠ "" then pure path else foundGCLogFile pid
  | .error _ => foundGCLogFile pid

def uploadGCLogM3 (h : GCHost) (c : GCConfig) (pid : Int) : GCProg Path := do
  let bs ← askGC (.runGCCaptureCmd pid)
  let dockerID : String ← askGC (.getDockerID pid)
  let gcPath ← m3GCPath pid bs
  let fn := s!"gc.{pid}.log"
  let gc ← processGCLogFile h gcPath ⟨fn, dockerID, pid⟩
  uploadGCLogM3With c gcPath fn pid gc

/-- What the host has let `ProcessGCLogFile` do: create the output file, copy
the last log it tried, list the directory. -/
structure Attempted where
  created : Bool
  copied : Bool
  listingFailed : Bool
  deriving DecidableEq, Repr

def isFallback : GCOp → Bool
  | .jstat _ _ | .jattach _ _ _ | .startJstat _ _ | .startJattach _ _ => true
  | _ => false

/-- The search for the log does not try the fallbacks itself. -/
def attempted : Ghost GCOp GCOp.Reply Attempted where
  allowed _ op := isFallback op = false
  possible _ _ _ := True
  after g op r :=
    match op, r with
    | .create _, none => { g with created := true }
    | .openLog _, some _ => { g with copied := false }
    | .ioCopy _, r => { g with copied := Option.isNone r }
    | .dockerCopy _ _, r => { g with copied := Option.isNone r }
    | .dockerLs _ _, .error _ => { g with listingFailed := true }
    | .openDir _, some _ => { g with listingFailed := true }
    | .readdirnames _, .error _ => { g with listingFailed := true }
    | _, _ => g

/-- The output file was created, the last copy into it failed, and that not
because the directory could not be listed. -/
def Attempted.spoilt (g : Attempted) : Bool := g.created && !g.copied && !g.listingFailed

section Attempts

variable {g : Attempted} {h : GCHost} {t : GCTarget}

theorem askGC_follows {α : Type} (op : GCOp) (hop : isFallback op = false)
    (k : op.Reply → GCProg α) (Q : α → Attempted → Prop) :
    (askGC op >>= k).Follows attempted g Q ↔
      ∀ r, (k r).Follows attempted (attempted.after g op r) Q := by
  constructor
  · intro hfollows r
    exact hfollows.2 r trivial
  · intro hnext
    exact ⟨hop, fun r _ => hnext r⟩

theorem copyFile_follows (file : Path) (pid : Int) :
    (copyFile h file pid).Follows attempted g fun err g' =>
      g' = { g with copied := err.isNone } := by
  refine ⟨rfl, fun r _ => ?_⟩
  cases r with
  | none => exact ⟨rfl, fun r _ => rfl⟩
  | some err =>
    change Prog.Follows _ (if !h.linux then _ else _) _ _
    split
    · rfl
    · refine ⟨rfl, fun r _ => ?_⟩
      cases r with
      | none => exact ⟨rfl, fun r _ => rfl⟩
      | some err => rfl

theorem collectLog_follows (log : Path) (suffix : String) :
    (collectLog h t log suffix).Follows attempted g fun err g' =>
      g' = { g with copied := err.isNone } := by
  unfold collectLog
  split
  · refine ⟨rfl, fun r _ => ?_⟩
    cases r with
    | some err => rfl
    | none => exact copyFile_follows _ t.pid
  · exact copyFile_follows log t.pid

theorem collectRotated_follows (preLog : Option Path) (curLog : Path) :
    (collectRotated h t preLog curLog).Follows attempted g fun out g' =>
      out.file = true ∧ g' = { g with copied := out.err.isNone } := by
  unfold collectRotated
  split
  · rw [Prog.follows_bind]
    exact (collectLog_follows curLog ".cur").mono fun _ _ h => ⟨rfl, h⟩
  · rw [Prog.follows_bind]
    apply (collectLog_follows _ ".pre").mono
    rintro _ _ rfl
    rw [Prog.follows_bind]
    exact (collectLog_follows curLog ".cur").mono fun _ _ h => ⟨rfl, h⟩

theorem listLogs_follows (dir : Path) :
    (listLogs t dir).Follows attempted g fun out g' =>
      match out with
      | .ok _ => g' = g
      | .error _ => g' = { g with listingFailed := true } := by
  unfold listLogs
  split
  · refine ⟨rfl, fun r _ => ?_⟩
    cases r <;> rfl
  · refine ⟨rfl, fun r _ => ?_⟩
    cases r with
    | some err => rfl
    | none =>
      refine ⟨rfl, fun r _ => ?_⟩
      cases r <;> rfl

/-- A file is returned together with an error exactly if it was spoilt. -/
def Tells (out : GCOutcome) (g : Attempted) : Prop := (out.file && out.err.isSome) = g.spoilt

theorem Tells.of_collected {out : GCOutcome} {g' : Attempted} (hcreated : g.created = true)
    (hlisted : g.listingFailed = false)
    (h : out.file = true ∧ g' = { g with copied := out.err.isNone }) : Tells out g' := by
  obtain ⟨hfile, rfl⟩ := h
  simp [Tells, Attempted.spoilt, hfile, hcreated, hlisted]

theorem processRotated_follows (gcPath : Path) (names : List Bytes) (hcopied : g.copied = false)
    (hlisted : g.listingFailed = false) :
    (processRotated h t gcPath g.created names).Follows attempted g Tells := by
  have hfailed (err : FsError) : Tells ⟨g.created, some err⟩ g := by
    simp [Tells, Attempted.spoilt, hcopied, hlisted]
  unfold processRotated
  dsimp only
  split
  · split
    · exact hfailed _
    · split
      · exact hfailed _
      · split
        · next hcreated =>
            exact (collectRotated_follows _ _).mono fun _ _ => .of_collected hcreated hlisted
        · next hcreated =>
            refine ⟨rfl, fun r _ => ?_⟩
            cases r with
            | some err =>
              have hnone : g.created = false := by simpa using hcreated
              change Tells ⟨false, some err⟩ g
              rw [← hnone]
              exact hfailed err
            | none => exact (collectRotated_follows _ _).mono fun _ _ => .of_collected rfl hlisted
  · exact ⟨rfl, fun r _ => r.elim⟩

theorem processMissing_follows (gcPath : Path) (err : FsError) (hcopied : g.copied = false)
    (hlisted : g.listingFailed = false) :
    (processMissing h t gcPath g.created err).Follows attempted g Tells := by
  unfold processMissing
  split
  · change Tells _ _
    simp [Tells, Attempted.spoilt, hcopied, hlisted]
  · rw [Prog.follows_bind]
    apply (listLogs_follows _).mono
    intro out g' hout
    cases out with
    | error err =>
      obtain rfl : g' = _ := hout
      change Tells _ _
      simp [Tells, Attempted.spoilt]
    | ok names =>
      obtain rfl : g' = g := hout
      exact processRotated_follows gcPath names hcopied hlisted

def nothingYet : Attempted := ⟨false, false, false⟩

theorem processResolved_follows (gcPath : Path) :
    (processResolved h t gcPath).Follows attempted nothingYet Tells := by
  unfold processResolved
  split
  · refine ⟨rfl, fun r _ => ?_⟩
    cases r with
    | none =>
      refine ⟨rfl, fun r _ => ?_⟩
      change (Option.isNone r && Option.isSome r) = _
      cases r <;> rfl
    | some err => exact processMissing_follows (g := nothingYet) gcPath err rfl rfl
  · rw [askGC_follows _ rfl]
    intro r
    cases r with
    | some err => rfl
    | none =>
      apply (Prog.follows_bind _ _ _ _).mpr
      apply (copyFile_follows gcPath t.pid).mono
      rintro err g' rfl
      cases err with
      | none => rfl
      | some err => exact processMissing_follows (g := ⟨true, false, false⟩) gcPath err rfl rfl

theorem getLatestFileFromGlobPattern_follows (globPattern : Path) :
    (getLatestFileFromGlobPattern globPattern).Follows attempted g fun _ g' => g' = g := by
  refine ⟨rfl, fun r _ => ?_⟩
  match r with
  | .error err => rfl
  | .ok [] => rfl
  | .ok (file :: files) => exact ⟨rfl, fun r _ => rfl⟩

theorem resolvePlaceholders_follows (gcPath : Path) (pid : Int) :
    (resolvePlaceholders gcPath pid).Follows attempted g fun _ g' => g' = g := by
  unfold resolvePlaceholders
  split
  · rfl
  · dsimp only
    rw [Prog.follows_bind]
    apply (getLatestFileFromGlobPattern_follows _).mono
    rintro latest g rfl
    cases latest with
    | ok latestFile => rfl
    | error err =>
      apply (Prog.follows_bind _ _ _ _).mpr
      apply (getLatestFileFromGlobPattern_follows _).mono
      rintro latest g rfl
      cases latest <;> rfl

theorem lstatAll_follows (paths : List Path) :
    (lstatAll paths).Follows attempted g fun _ g' => g' = g := by
  induction paths with
  | nil => rfl
  | cons path paths ih =>
    rw [lstatAll, askGC_follows _ rfl]
    intro r
    rw [Prog.follows_bind]
    exact ih

theorem findLatestFileInRotatingLogFiles_follows (gcPath : Path) :
    (findLatestFileInRotatingLogFiles gcPath).Follows attempted g fun _ g' => g' = g := by
  rw [findLatestFileInRotatingLogFiles, askGC_follows _ rfl]
  intro globbed
  apply (askGC_follows (.fileExists gcPath) rfl _ _).mpr
  intro exist
  cases globbed with
  | error err => rfl
  | ok globbed =>
    apply (Prog.follows_bind _ _ _ _).mpr
    apply (lstatAll_follows _).mono
    rintro infos g rfl
    unfold latestOf
    split
    · exact ⟨rfl, fun r _ => r.elim⟩
    · rfl
    · exact ⟨rfl, fun r _ => rfl⟩

theorem processGCLogFile_follows (gcPath : Path) :
    (processGCLogFile h gcPath t).Follows attempted nothingYet Tells := by
  unfold processGCLogFile
  split
  · rfl
  · rw [Prog.follows_bind]
    apply (resolvePlaceholders_follows gcPath t.pid).mono
    rintro gcPath _ rfl
    rw [Prog.follows_bind]
    apply (findLatestFileInRotatingLogFiles_follows gcPath).mono
    rintro gcPath _ rfl
    exact processResolved_follows gcPath

end Attempts

section Callers

def Answers (op : GCOp) (_ : Unit) (_ : op.Reply) (_ : Unit) : Prop := True

abbrev GCTrace := Trace GCOp GCOp.Reply Unit

/-- A run has tried one of the fallbacks, `jstat` or `jattach`. -/
def Tries (trace : GCTrace) : Prop := ∃ e ∈ trace, isFallback e.op = true

variable {c : GCConfig} {gcPath fn : Path} {pid : Int} {gc : GCOutcome} {trace : GCTrace}

theorem not_tries_gcPost {hasFile : Bool} {out : Result × Option FsError}
    (hrun : Runs Answers (gcPost hasFile gcPath) () trace out ()) : ¬ Tries trace := by
  obtain ⟨_, _, _, _, rfl, hposted⟩ := Runs.of_act hrun
  obtain ⟨r, _, _, _, rfl, hdone⟩ := Runs.of_act hposted
  cases r with
  | error _ | ok _ =>
    obtain ⟨rfl, _⟩ := Runs.of_done hdone
    simp [Tries, isFallback]

theorem not_tries_postM3 {hasFile : Bool} {out : Path}
    (hrun : Runs Answers (postM3 hasFile gcPath) () trace out ()) : ¬ Tries trace := by
  obtain ⟨_, _, _, _, rfl, hposted⟩ := Runs.of_act hrun
  obtain ⟨_, _, _, _, rfl, hdone⟩ := Runs.of_act hposted
  obtain ⟨rfl, _⟩ := Runs.of_done hdone
  simp [Tries, isFallback]

/-- `GC.Run` goes on if it has no file. -/
theorem gcRunWith_tries_iff (hpid : 0 < pid) (htouch : c.minimalTouch = false)
    {out : Result × Option FsError}
    (hrun : Runs Answers (gcRunWith c gcPath pid gc) () trace out ()) :
    Tries trace ↔ gc.file = false := by
  unfold gcRunWith at hrun
  cases hfile : gc.file with
  | true =>
    rw [if_pos (.inl hfile)] at hrun
    simp [not_tries_gcPost hrun]
  | false =>
    rw [if_neg (by simp [hfile, hpid]), htouch] at hrun
    obtain ⟨r, _, _, _, rfl, _⟩ := Runs.of_act hrun
    simp [Tries, isFallback]

/-- `uploadGCLogM3` goes on if it has no file or an error. -/
theorem uploadGCLogM3With_tries_iff (htouch : c.minimalTouch = false) {out : Path}
    (hrun : Runs Answers (uploadGCLogM3With c gcPath fn pid gc) () trace out ()) :
    Tries trace ↔ gc.file = false ∨ gc.err ≠ none := by
  unfold uploadGCLogM3With at hrun
  by_cases hgot : gc.file = true ∧ gc.err = none
  · rw [if_pos hgot] at hrun
    simp [not_tries_postM3 hrun, hgot]
  · rw [if_neg hgot, htouch] at hrun
    obtain ⟨r, _, _, _, rfl, _⟩ := Runs.of_act hrun
    have hnot : gc.file = false ∨ gc.err ≠ none := by
      rw [not_and_or] at hgot
      simpa using hgot
    simp [Tries, isFallback, hnot]

theorem attempted_describes : attempted.Describes (.alone Answers) fun (_ : Unit) _ => True :=
  ⟨fun _ _ _ _ _ _ _ _ => ⟨trivial, trivial⟩, fun _ _ _ _ _ => trivial⟩

/-- What the host has answered tells the outcome, and no fallback has been tried. -/
theorem processGCLogFile_tells {h : GCHost} {t : GCTarget}
    (hrun : Runs Answers (processGCLogFile h gcPath t) () trace gc ()) :
    Tells gc (attempted.afterAll nothingYet trace) ∧ ¬ Tries trace := by
  obtain ⟨hallowed, _, htells⟩ :=
    Steps.of_follows attempted_describes (processGCLogFile_follows gcPath) trivial hrun
  refine ⟨htells gc rfl, ?_⟩
  rintro ⟨e, he, hfallback⟩
  obtain ⟨before, rest, rfl⟩ := List.append_of_mem he
  rw [(hallowed before e rest rfl).1] at hfallback
  cases hfallback

theorem tries_append {first second : GCTrace} (hfirst : ¬ Tries first) :
    Tries (first ++ second) ↔ Tries second := by
  simp only [Tries, List.mem_append] at hfirst ⊢
  grind

/-- A run of `GC.Run` as a whole goes on after every error exactly if its
`ProcessGCLogFile` was not left with a file it had created and could not fill. -/
theorem gcRun_tries_iff {h : GCHost} {dockerID : String} (hpid : 0 < pid)
    (htouch : c.minimalTouch = false) {result : Result × Option FsError}
    (hrun : Runs Answers (gcRun h c gcPath dockerID pid) () trace result ()) :
    ∃ first second gc, trace = first ++ second ∧
      Runs Answers (processGCLogFile h gcPath ⟨"gc.log", dockerID, pid⟩) () first gc () ∧
      ((gc.err ≠ none → Tries trace) ↔ (attempted.afterAll nothingYet first).spoilt = false) := by
  obtain ⟨first, gc, _, second, rfl, hprocess, hrest⟩ := Runs.of_bind hrun
  obtain ⟨htells, hnone⟩ := processGCLogFile_tells hprocess
  refine ⟨first, second, gc, rfl, hprocess, ?_⟩
  rw [tries_append hnone, gcRunWith_tries_iff hpid htouch hrest, ← htells]
  obtain ⟨file, err⟩ := gc
  cases file <;> cases err <;> simp

theorem not_tries_m3GCPath {bs : Except FsError Path} {out : Path}
    (hrun : Runs Answers (m3GCPath pid bs) () trace out ()) : ¬ Tries trace := by
  have hfound (hrun : Runs Answers (foundGCLogFile pid) () trace out ()) : ¬ Tries trace := by
    obtain ⟨r, _, _, _, rfl, hdone⟩ := Runs.of_act hrun
    cases r with
    | error _ | ok _ =>
      obtain ⟨rfl, _⟩ := Runs.of_done hdone
      simp [Tries, isFallback]
  cases bs with
  | error _ => exact hfound hrun
  | ok path =>
    change Runs Answers (if path ≠ "" then .done path else foundGCLogFile pid) () trace out ()
      at hrun
    split at hrun
    · obtain ⟨rfl, _⟩ := Runs.of_done hrun
      simp [Tries]
    · exact hfound hrun

/-- A run of `uploadGCLogM3` as a whole goes on if its `ProcessGCLogFile` gave it
no file or an error. -/
theorem uploadGCLogM3_tries_iff {h : GCHost} (htouch : c.minimalTouch = false) {out : Path}
    (hrun : Runs Answers (uploadGCLogM3 h c pid) () trace out ()) :
    ∃ before first second gcPath dockerID gc, trace = before ++ (first ++ second) ∧
      Runs Answers (processGCLogFile h gcPath ⟨s!"gc.{pid}.log", dockerID, pid⟩) () first gc () ∧
      (Tries trace ↔ gc.file = false ∨ gc.err ≠ none) := by
  obtain ⟨bs, _, rest, _, rfl, hasked⟩ := Runs.of_act hrun
  obtain ⟨dockerID, _, rest, _, rfl, hpath⟩ := Runs.of_act hasked
  have hpath : Runs Answers (m3GCPath pid bs >>= fun gcPath =>
      processGCLogFile h gcPath ⟨s!"gc.{pid}.log", dockerID, pid⟩ >>=
        uploadGCLogM3With c gcPath s!"gc.{pid}.log" pid) () rest out () := hpath
  obtain ⟨resolved, gcPath, _, rest, rfl, hresolved, hfound⟩ := Runs.of_bind hpath
  obtain ⟨first, gc, _, second, rfl, hprocess, hupload⟩ := Runs.of_bind hfound
  refine ⟨_ :: _ :: resolved, first, second, gcPath, dockerID, gc, rfl, hprocess, ?_⟩
  have hquiet : Tries (resolved ++ (first ++ second)) ↔ Tries second :=
    (tries_append (not_tries_m3GCPath hresolved)).trans
      (tries_append (processGCLogFile_tells hprocess).2)
  rw [← uploadGCLogM3With_tries_iff htouch hupload, ← hquiet]
  simp [Tries, isFallback]

/-- The two callers agree on whether the GC log was obtained, and `GC.Run` goes
on after every error, exactly if `ProcessGCLogFile` was not left with a file it
had created and could not fill. -/
theorem gc_fallbacks_agree_iff (h : GCHost) (t : GCTarget) (hpid : 0 < pid)
    (htouch : c.minimalTouch = false) {gcTrace m3Trace : GCTrace}
    {result : Result × Option FsError} {m3Path : Path}
    (hrun : Runs Answers (processGCLogFile h gcPath t) () trace gc ())
    (hgc : Runs Answers (gcRunWith c gcPath pid gc) () gcTrace result ())
    (hm3 : Runs Answers (uploadGCLogM3With c gcPath fn pid gc) () m3Trace m3Path ()) :
    ((gc.err ≠ none → Tries gcTrace) ∧ (Tries gcTrace ↔ Tries m3Trace)) ↔
      (attempted.afterAll nothingYet trace).spoilt = false := by
  have htells := (processGCLogFile_tells hrun).1
  rw [gcRunWith_tries_iff hpid htouch hgc, uploadGCLogM3With_tries_iff htouch hm3, ← htells]
  obtain ⟨file, err⟩ := gc
  cases file <;> cases err <;> simp

end Callers

section Samples

/-- A host where every command works, and a log and its directory are there or
not. The directory holds nothing else. -/
def sampleGCHost (logExists dirExists : Bool) : (op : GCOp) → Unit → Option (op.Reply × Unit)
  | .glob _, _ => some (.ok [], ())
  | .fileExists _, _ => some (logExists, ())
  | .lstat _, _ => some (some ⟨"gc.log", 1⟩, ())
  | .latestByTime [info], _ => some (⟨info, by simp, by simp⟩, ())
  | .create _, _ => some (none, ())
  | .openLog _, _ =>
    some (if logExists then none else some ⟨"no such file or directory", true⟩, ())
  | .ioCopy _, _ => some (none, ())
  | .openDir _, _ =>
    some (if dirExists then none else some ⟨"no such file or directory", true⟩, ())
  | .readdirnames _, _ => some (.ok [], ())
  | .jstat _ _, _ => some (none, ())
  | .startJstat _ _, _ => some (none, ())
  | .wait, _ => some (none, ())
  | .post _, _ => some (⟨"", true⟩, ())
  | .absPath path, _ => some (.ok path, ())
  | _, _ => none

def plainHost : GCHost := ⟨true, "/tmp", fun _ => some fun _ => none⟩

def touching : GCConfig := ⟨false, "/opt/yc"⟩

def gcTarget : GCTarget := ⟨"gc.log", "", 5⟩

theorem exists_gcRuns {α : Type} (logExists dirExists : Bool) (n : Nat) {p : GCProg α} {a : α}
    {P : GCTrace → Prop} (hdrive : ∃ out,
      drive p () (List.replicate n (.answer (sampleGCHost logExists dirExists))) = some out ∧
      out.2.1 = .done a ∧ P out.1) :
    ∃ trace, Runs Answers p () trace a () ∧ P trace := by
  obtain ⟨⟨trace, p', w'⟩, hdrive, rfl, hP⟩ := hdrive
  refine ⟨trace, drive_steps ?_ hdrive, hP⟩
  intro move hmove
  rw [List.eq_of_mem_replicate hmove]
  exact fun _ _ _ _ _ => trivial

def notFound : GCOutcome :=
  ⟨true, some ⟨"can not find the current log file, file does not exist", false⟩⟩

/-- The configured log does not exist. `ProcessGCLogFile` returns the empty
file it has created, with an error. `GC.Run` takes that file for the log, while
`uploadGCLogM3` goes on to `jstat`. -/
theorem missing_log_no_fallback : ∃ trace gcTrace result m3Trace m3Path,
    Runs Answers (processGCLogFile plainHost "/var/log/gc.log" gcTarget) () trace notFound () ∧
    Runs Answers (gcRunWith touching "/var/log/gc.log" 5 notFound) () gcTrace result () ∧
    Runs Answers (uploadGCLogM3With touching "/var/log/gc.log" "gc.5.log" 5 notFound) ()
      m3Trace m3Path () ∧
    ¬ Tries gcTrace ∧ Tries m3Trace := by
  obtain ⟨trace, hrun, -⟩ : ∃ trace, Runs Answers
      (processGCLogFile plainHost "/var/log/gc.log" gcTarget) () trace notFound () ∧ True :=
    exists_gcRuns false true 7 ⟨_, rfl, rfl, trivial⟩
  obtain ⟨gcTrace, hgc, -⟩ : ∃ trace, Runs Answers
      (gcRunWith touching "/var/log/gc.log" 5 notFound) () trace
      (⟨"\n\nGC Path: /var/log/gc.log", true⟩, none) () ∧ True :=
    exists_gcRuns false true 2 ⟨_, rfl, rfl, trivial⟩
  obtain ⟨m3Trace, hm3, -⟩ : ∃ trace, Runs Answers
      (uploadGCLogM3With touching "/var/log/gc.log" "gc.5.log" 5 notFound) () trace "gc.5.log" () ∧
      True :=
    exists_gcRuns false true 4 ⟨_, rfl, rfl, trivial⟩
  refine ⟨trace, gcTrace, _, m3Trace, _, hrun, hgc, hm3, ?_, ?_⟩
  · rw [gcRunWith_tries_iff (by decide) rfl hgc]
    decide
  · rw [uploadGCLogM3With_tries_iff rfl hm3]
    decide

def noDirectory : GCOutcome := ⟨false, some ⟨"no such file or directory", true⟩⟩

/-- Neither caller goes on where the log can be copied, and both do where its
directory does not exist. -/
theorem callers_agree_on_copied_and_lost :
    (∃ trace gcTrace result m3Trace m3Path,
      Runs Answers (processGCLogFile plainHost "/var/log/gc.log" gcTarget) ()
        trace ⟨true, none⟩ () ∧
      Runs Answers (gcRunWith touching "/var/log/gc.log" 5 ⟨true, none⟩) () gcTrace result () ∧
      Runs Answers (uploadGCLogM3With touching "/var/log/gc.log" "gc.5.log" 5 ⟨true, none⟩) ()
        m3Trace m3Path () ∧
      (Tries gcTrace ↔ Tries m3Trace) ∧ ¬ Tries gcTrace) ∧
    ∃ trace gcTrace result m3Trace m3Path,
      Runs Answers (processGCLogFile plainHost "/var/log/gc.log" gcTarget) ()
        trace noDirectory () ∧
      Runs Answers (gcRunWith touching "/var/log/gc.log" 5 noDirectory) () gcTrace result () ∧
      Runs Answers (uploadGCLogM3With touching "/var/log/gc.log" "gc.5.log" 5 noDirectory) ()
        m3Trace m3Path () ∧
      Tries gcTrace ∧ Tries m3Trace := by
  constructor
  · obtain ⟨trace, hrun, hfilled⟩ : ∃ trace, Runs Answers
        (processGCLogFile plainHost "/var/log/gc.log" gcTarget) () trace ⟨true, none⟩ () ∧
        (attempted.afterAll nothingYet trace).spoilt = false :=
      exists_gcRuns true true 7 ⟨_, rfl, rfl, rfl⟩
    obtain ⟨gcTrace, hgc, -⟩ : ∃ trace, Runs Answers
        (gcRunWith touching "/var/log/gc.log" 5 ⟨true, none⟩) () trace
        (⟨"\n\nGC Path: /var/log/gc.log", true⟩, none) () ∧ True :=
      exists_gcRuns true true 2 ⟨_, rfl, rfl, trivial⟩
    obtain ⟨m3Trace, hm3, -⟩ : ∃ trace, Runs Answers
        (uploadGCLogM3With touching "/var/log/gc.log" "gc.5.log" 5 ⟨true, none⟩) () trace
        "/var/log/gc.log" () ∧ True :=
      exists_gcRuns true true 2 ⟨_, rfl, rfl, trivial⟩
    have hagree := gc_fallbacks_agree_iff plainHost gcTarget (by decide) rfl hrun hgc hm3
    refine ⟨trace, gcTrace, _, m3Trace, _, hrun, hgc, hm3, (hagree.mpr hfilled).2, ?_⟩
    simp [gcRunWith_tries_iff (by decide) rfl hgc]
  · obtain ⟨trace, hrun, hlost⟩ : ∃ trace, Runs Answers
        (processGCLogFile plainHost "/var/log/gc.log" gcTarget) () trace noDirectory () ∧
        (attempted.afterAll nothingYet trace).spoilt = false :=
      exists_gcRuns false false 6 ⟨_, rfl, rfl, rfl⟩
    obtain ⟨gcTrace, hgc, -⟩ : ∃ trace, Runs Answers
        (gcRunWith touching "/var/log/gc.log" 5 noDirectory) () trace
        (⟨"\n\nGC Path: gc.log", true⟩, none) () ∧ True :=
      exists_gcRuns false false 3 ⟨_, rfl, rfl, trivial⟩
    obtain ⟨m3Trace, hm3, -⟩ : ∃ trace, Runs Answers
        (uploadGCLogM3With touching "/var/log/gc.log" "gc.5.log" 5 noDirectory) () trace
        "gc.5.log" () ∧ True :=
      exists_gcRuns false false 4 ⟨_, rfl, rfl, trivial⟩
    obtain ⟨htries, hagree⟩ :=
      (gc_fallbacks_agree_iff plainHost gcTarget (by decide) rfl hrun hgc hm3).mpr hlost
    have hgcTries := htries (by decide)
    exact ⟨trace, gcTrace, _, m3Trace, _, hrun, hgc, hm3, hgcTries, hagree.mp hgcTries⟩

end Samples

end YcAgent.Capture
