import YcAgent.Capture.Post
import YcAgent.Capture.UploadUrl
import YcAgent.Go.Map
import YcAgent.Lib.Weakest

/-!
The capture of extended data: a script of the user leaves files in a folder of its
own, each of them is copied to the capture directory under a name that starts with
`ed-`, and what has such a name there is uploaded. A call that fails costs one
file, which is then in the account of the failures; the directories hold regular
files and directories.
-/

namespace YcAgent.Capture.ExtendedData

open Go Lib.Program UploadUrl

instance : DecidableEq FileName := fun a b =>
  decidable_of_iff (a.name = b.name) ⟨by cases a; cases b; rintro ⟨⟩; rfl, congrArg FileName.name⟩

def edName (file : FileName) : FileName where
  name := ascii "ed-" ++ file.name
  nonempty := by simp [ascii]
  no_slash := by
    have hed : (47 : UInt8) ∉ ascii "ed-" := by decide
    simp [hed, file.no_slash]
  no_nul := by
    have hed : (0 : UInt8) ∉ ascii "ed-" := by decide
    simp [hed, file.no_nul]

def isEd (file : FileName) : Bool := (ascii "ed-").isPrefixOf file.name

theorem edName_injective {a b : FileName} (h : edName a = edName b) : a = b := by
  have hname := List.append_cancel_left (congrArg FileName.name h)
  cases a
  cases b
  cases hname
  rfl

theorem isEd_edName (file : FileName) : isEd (edName file) = true := by
  rw [isEd, List.isPrefixOf_iff_prefix]
  exact List.prefix_append _ _

structure DirEntry where
  file : FileName
  isDir : Bool

/-- How the wait for the script ends: with the error and the exit code, or with the
timeout. -/
inductive Waited where
  | exited (err : Option IOError) (code : Int)
  | timeout

inductive EdOp where
  | mkdirAll (dir : Path)
  | createScriptLog (dir : Path)
  /-- The answer says whether the command was skipped. -/
  | start (script : String)
  | wait
  | kill
  | readDataFolder (dir : Path)
  | openSource (dir : Path) (file : FileName)
  | create (file : FileName)
  | copy (source dst : FileName)
  | readDir
  | openFile (file : FileName)
  | postData (endpoint : Path) (file : FileName) (data : Bytes) (content : Bytes)
  | log (text : String)
  | logCopyFailed (dir : Path) (source dst : FileName) (err : IOError)
  | logOpenFailed (file : FileName) (err : IOError)

@[reducible] def EdOp.Reply : EdOp → Type
  | .mkdirAll _ | .createScriptLog _ => Except IOError Unit
  | .start _ => Except IOError Bool
  | .wait => Waited
  | .kill => Option IOError
  | .readDataFolder _ | .readDir => Except IOError (List DirEntry)
  | .openSource _ _ | .create _ => Except IOError Unit
  | .copy _ _ => Option IOError
  | .openFile _ => Except IOError Bytes
  | .postData _ _ _ _ => String × Bool
  | _ => Unit

abbrev EdProg := Prog EdOp EdOp.Reply

def ask (op : EdOp) : EdProg op.Reply := .perform op

structure EdConfig where
  script : String
  dataFolder : Path
  endpoint : String
  onlyCapture : Bool

def scriptTimeout : String := "5m0s"

def executeScript (c : EdConfig) : EdProg (Option IOError) := do
  ask (.log s!"ExtendedData: executing custom script: {c.script}")
  match ← ask (.createScriptLog c.dataFolder) with
  | .error err => return some s!"ExtendedData: failed to create script log file: {err}"
  | .ok () =>
  match ← ask (.start c.script) with
  | .error err => return some s!"ExtendedData: failed to start custom script: {err}"
  | .ok skipped =>
  if skipped then
    ask (.log "ExtendedData: custom script execution was skipped")
    return none
  else
  match ← ask .wait with
  | .exited (some err) _ => return some s!"ExtendedData: custom script failed: {err}"
  | .exited none code =>
    if code ≠ 0 then
      return some s!"ExtendedData: custom script exited with non-zero code: {code}"
    else
      ask (.log "ExtendedData: custom script completed successfully")
      return none
  | .timeout =>
    ask (.log s!"ExtendedData: custom script timed out after {scriptTimeout}, terminating")
    match ← ask .kill with
    | some err =>
      ask (.log s!"ExtendedData: failed to kill timed out script: {err}")
      return some s!"ExtendedData: custom script execution timed out after {scriptTimeout}"
    | none =>
      return some s!"ExtendedData: custom script execution timed out after {scriptTimeout}"

def copyFile (dir : Path) (source dst : FileName) : EdProg (Option IOError) := do
  match ← ask (.openSource dir source) with
  | .error err => return some s!"ExtendedData: failed to open source file: {err}"
  | .ok () =>
  match ← ask (.create dst) with
  | .error err => return some s!"ExtendedData: failed to create destination file: {err}"
  | .ok () =>
  match ← ask (.copy source dst) with
  | some err => return some s!"ExtendedData: failed to copy content: {err}"
  | none => return none

/-- The loop of `captureEdFiles`. -/
def copyEntries (dir : Path) : List DirEntry → EdProg Unit
  | [] => return ()
  | entry :: rest => do
    if entry.isDir then copyEntries dir rest
    else
      match ← copyFile dir entry.file (edName entry.file) with
      | some err =>
        ask (.logCopyFailed dir entry.file (edName entry.file) err)
        copyEntries dir rest
      | none => copyEntries dir rest

def captureEdFiles (dir : Path) : EdProg (Option IOError) := do
  match ← ask (.readDataFolder dir) with
  | .error err => return some s!"ExtendedData: failed to read data folder: {err}"
  | .ok entries =>
    if entries.length = 0 then
      ask (.log s!"ExtendedData: no files found in data folder {dir}")
      return none
    else
      copyEntries dir entries
      return none

structure Tally where
  successCount : Nat := 0
  failCount : Nat := 0
  uploadMsgs : List String := []

def uploadEntries (endpoint : String) : Tally → List DirEntry → EdProg Tally
  | t, [] => return t
  | t, entry :: rest => do
    if entry.isDir || !isEd entry.file then uploadEntries endpoint t rest
    else
      match ← ask (.openFile entry.file) with
      | .error err =>
        ask (.logOpenFailed entry.file err)
        uploadEntries endpoint { t with failCount := t.failCount + 1 } rest
      | .ok content =>
        let (msg, ok) ← ask
          (.postData endpoint entry.file (Upload.extendedData entry.file).data content)
        let t := { t with uploadMsgs := t.uploadMsgs ++ [msg] }
        uploadEntries endpoint
          (if ok then { t with successCount := t.successCount + 1 }
          else { t with failCount := t.failCount + 1 }) rest

/-- The result of `uploadCapturedFiles`. -/
def summary (onlyCapture : Bool) (t : Tally) : Result :=
  let captured := t.successCount + t.failCount
  let msgs := String.intercalate "\n" t.uploadMsgs
  if onlyCapture then
    ⟨s!"captured {captured} files, uploaded 0, because of running in Only Capture mode.\n", true⟩
  else if t.failCount > 0 then
    ⟨s!"captured {captured} files, uploaded {t.successCount}: \n{msgs}",
      decide (t.successCount > 0)⟩
  else if t.successCount = 0 then ⟨"no files with 'ed-' prefix found for upload", true⟩
  else ⟨s!"successfully uploaded {t.successCount} files: \n{msgs}", true⟩

def uploadCapturedFiles (c : EdConfig) : EdProg (Result × Bool) := do
  match ← ask .readDir with
  | .error err => return (⟨s!"ExtendedData: failed to read current directory: {err}", false⟩, true)
  | .ok entries =>
    let t ← uploadEntries c.endpoint {} entries
    return (summary c.onlyCapture t, false)

def run (c : EdConfig) : EdProg (Result × Bool) := do
  match ← ask (.mkdirAll c.dataFolder) with
  | .error err => failed s!"ExtendedData: failed to create data folder {c.dataFolder}: {err}"
  | .ok () =>
  match ← executeScript c with
  | some err => failed s!"ExtendedData: error while executing custom script: {err}"
  | none =>
  match ← captureEdFiles c.dataFolder with
  | some err => failed s!"ExtendedData: failed to capture files: {err}"
  | none => uploadCapturedFiles c
where
  failed (errMsg : String) : EdProg (Result × Bool) := do
    ask (.log errMsg)
    return (⟨errMsg, false⟩, true)

inductive Node where
  | dir
  | file (content : Bytes)

def Node.isDir : Node → Bool
  | dir => true
  | file _ => false

abbrev Dir := GoMap FileName Node

/-- The data folder and the capture directory, the files of the latter that a call
failed for, and what was handed to `PostData`. -/
structure EdWorld where
  data : Dir
  cwd : Dir
  failed : List FileName := []
  posted : List (FileName × Bytes) := []

/-- `os.ReadDir` lists every entry once. -/
structure Lists (dir : Dir) (entries : List DirEntry) : Prop where
  nodup : (entries.map DirEntry.file).Nodup
  mem_iff : ∀ e, e ∈ entries ↔ ∃ node, dir.lookup e.file = some node ∧ node.isDir = e.isDir

/-- What the operations answer and do. Each may fail. The script writes into the data
folder until it is waited for; a copy that fails may leave a part of the file. -/
def Perform : (op : EdOp) → EdWorld → op.Reply → EdWorld → Prop
  | .mkdirAll _, w, _, w' | .createScriptLog _, w, _, w' | .start _, w, _, w' | .wait, w, _, w'
  | .kill, w, _, w' => ∃ data, w' = { w with data := data }
  | .readDataFolder _, w, r, w' => (∀ entries, r = .ok entries → Lists w.data entries) ∧ w' = w
  | .openSource _ file, w, r, w' =>
    match r with
    | .ok () => w' = w
    | .error _ => w' = { w with failed := w.failed ++ [edName file] }
  | .create file, w, r, w' =>
    match r with
    | .ok () => w.cwd.lookup file ≠ some .dir ∧
        w' = { w with cwd := w.cwd.insert file (.file []) }
    | .error _ => w' = { w with failed := w.failed ++ [file] }
  | .copy source dst, w, r, w' =>
    match r with
    | none => ∃ content, w.data.lookup source = some (.file content) ∧
        w' = { w with cwd := w.cwd.insert dst (.file content) }
    | some _ => ∃ part, w' = { w with
        cwd := w.cwd.insert dst (.file part), failed := w.failed ++ [dst] }
  | .readDir, w, r, w' => (∀ entries, r = .ok entries → Lists w.cwd entries) ∧ w' = w
  | .openFile file, w, r, w' =>
    match r with
    | .ok content => w.cwd.lookup file = some (.file content) ∧ w' = w
    | .error _ => w' = { w with failed := w.failed ++ [file] }
  | .postData _ file _ content, w, _, w' => w' = { w with posted := w.posted ++ [(file, content)] }
  | .log _, w, _, w' | .logCopyFailed _ _ _ _, w, _, w' | .logOpenFailed _ _, w, _, w' => w' = w

/-- The file is where the upload looks for it, or its loss is on the account. -/
def Copied (w : EdWorld) (source : FileName) (content : Bytes) : Prop :=
  edName source ∈ w.failed ∨ w.cwd.lookup (edName source) = some (.file content)

/-- The files `sources` have been copied. Nothing else has changed, and the account
has only grown. -/
structure Copies (sources : List FileName) (w w' : EdWorld) : Prop where
  data : w'.data = w.data
  posted : w'.posted = w.posted
  failed : w.failed ⊆ w'.failed
  others : ∀ file, (∀ s ∈ sources, file ≠ edName s) → w'.cwd.lookup file = w.cwd.lookup file
  copied : ∀ source ∈ sources, ∀ content, w.data.lookup source = some (.file content) →
    Copied w' source content

theorem Copies.refl (w : EdWorld) : Copies [] w w :=
  ⟨rfl, rfl, fun _ h => h, fun _ _ => rfl, nofun⟩

theorem Copied.kept {sources : List FileName} {w w' : EdWorld} {source : FileName} {content : Bytes}
    (h : Copied w source content) (hcopies : Copies sources w w') (hother : source ∉ sources) :
    Copied w' source content := by
  rcases h with hfailed | hcopied
  · exact .inl (hcopies.failed hfailed)
  · refine .inr ((hcopies.others _ ?_).trans hcopied)
    rintro s hs heq
    exact hother (edName_injective heq ▸ hs)

theorem Copies.cons {source : FileName} {sources : List FileName} {w w₁ w₂ : EdWorld}
    (h : Copies [source] w w₁) (h' : Copies sources w₁ w₂) (hnew : source ∉ sources) :
    Copies (source :: sources) w w₂ where
  data := h'.data.trans h.data
  posted := h'.posted.trans h.posted
  failed := fun _ hmem => h'.failed (h.failed hmem)
  others := by
    intro file hfile
    rw [List.forall_mem_cons] at hfile
    rw [h'.others file hfile.2, h.others file (by simpa using hfile.1)]
  copied := by
    intro s hs content hcontent
    rcases List.mem_cons.1 hs with rfl | hs
    · exact (h.copied s List.mem_cons_self content hcontent).kept h' hnew
    · exact h'.copied s hs content (h.data ▸ hcontent)

theorem copies_lost {w : EdWorld} {source : FileName} {cwd : Dir}
    (hcwd : ∀ file ≠ edName source, cwd.lookup file = w.cwd.lookup file) :
    Copies [source] w { w with cwd, failed := w.failed ++ [edName source] } where
  data := rfl
  posted := rfl
  failed := fun _ h => List.mem_append_left _ h
  others := fun file h => hcwd file (h source List.mem_cons_self)
  copied := by
    intro s hs _ _
    rw [List.mem_singleton.1 hs]
    exact .inl (by simp)

theorem copyFile_meets (dir : Path) (source : FileName) (w : EdWorld) :
    (copyFile dir source (edName source)).Meets Perform w fun _ w' => Copies [source] w w' := by
  have hinserted (first second : Node) (file : FileName) (hne : file ≠ edName source) :
      ((w.cwd.insert (edName source) first).insert (edName source) second).lookup file =
        w.cwd.lookup file := by
    rw [AList.lookup_insert_ne hne, AList.lookup_insert_ne hne]
  unfold copyFile
  rintro (err | ⟨⟩) w₁ hopen
  · cases hopen
    exact copies_lost fun _ _ => rfl
  cases hopen
  rintro (err | ⟨⟩) w₂ hcreate
  · cases hcreate
    exact copies_lost fun _ _ => rfl
  obtain ⟨-, rfl⟩ := hcreate
  rintro (_ | err) w₃ hcopy
  · obtain ⟨content, hcontent, rfl⟩ := hcopy
    refine ⟨rfl, rfl, fun _ h => h, fun file hfile => ?_, fun s hs content' hcontent' => .inr ?_⟩
    · exact hinserted _ _ file (hfile source List.mem_cons_self)
    · cases List.mem_singleton.1 hs
      cases hcontent.symm.trans hcontent'
      exact AList.lookup_insert _
  · obtain ⟨part, rfl⟩ := hcopy
    exact copies_lost (hinserted _ _)

def sources (entries : List DirEntry) : List FileName :=
  (entries.filter fun e => !e.isDir).map DirEntry.file

theorem Lists.mem_files {dir : Dir} {entries : List DirEntry} (h : Lists dir entries)
    {file : FileName}
    {content : Bytes} (hfile : dir.lookup file = some (.file content)) {q : DirEntry → Bool}
    (hq : q ⟨file, false⟩ = true) : file ∈ (entries.filter q).map DirEntry.file :=
  List.mem_map.2 ⟨_, List.mem_filter.2 ⟨(h.mem_iff ⟨file, false⟩).2 ⟨_, hfile, rfl⟩, hq⟩, rfl⟩

theorem copyEntries_meets (dir : Path) (entries : List DirEntry)
    (hnodup : (entries.map DirEntry.file).Nodup) (w : EdWorld) :
    (copyEntries dir entries).Meets Perform w fun _ w' => Copies (sources entries) w w' := by
  induction entries generalizing w with
  | nil => exact .refl w
  | cons entry rest ih =>
    rw [List.map_cons, List.nodup_cons] at hnodup
    have hrest := ih hnodup.2
    cases hdir : entry.isDir with
    | true =>
      have hsources : sources (entry :: rest) = sources rest := by simp [sources, hdir]
      rw [copyEntries, hdir, if_pos rfl, hsources]
      exact hrest w
    | false =>
      have hsources : sources (entry :: rest) = entry.file :: sources rest := by
        simp [sources, hdir]
      have hnew : entry.file ∉ sources rest := by
        intro hmem
        obtain ⟨e, he, heq⟩ := List.mem_map.1 hmem
        exact hnodup.1 (heq ▸ List.mem_map_of_mem (List.mem_of_mem_filter he))
      have hafter (w₁ : EdWorld) (hcopies : Copies [entry.file] w w₁) :
          (copyEntries dir rest).Meets Perform w₁ fun _ w' =>
            Copies (entry.file :: sources rest) w w' :=
        (hrest w₁).mono fun _ w' hmore => hcopies.cons hmore hnew
      rw [copyEntries, hdir, if_neg Bool.false_ne_true, Prog.meets_bind, hsources]
      apply (copyFile_meets dir entry.file w).mono
      rintro (_ | err) w₁ hcopies
      · exact hafter w₁ hcopies
      · rintro ⟨⟩ w₂ rfl
        exact hafter _ hcopies

theorem captureEdFiles_meets (dir : Path) (w : EdWorld) :
    (captureEdFiles dir).Meets Perform w fun err w' => err = none →
      w'.data = w.data ∧ w'.posted = w.posted ∧
        ∀ source content, w.data.lookup source = some (.file content) →
          Copied w' source content := by
  unfold captureEdFiles
  rintro (err | entries) w₁ ⟨hlists, rfl⟩
  · exact nofun
  have hlisted := hlists entries rfl
  have hsource {source : FileName} {content : Bytes}
      (hcontent : w₁.data.lookup source = some (.file content)) : source ∈ sources entries :=
    hlisted.mem_files hcontent rfl
  change Prog.Meets Perform (if entries.length = 0 then _ else _) w₁ _
  split
  · next hempty =>
      rintro ⟨⟩ w₂ rfl _
      refine ⟨rfl, rfl, fun source content hcontent => ?_⟩
      rw [List.length_eq_zero_iff.1 hempty] at hsource
      exact absurd (hsource hcontent) List.not_mem_nil
  · rw [Prog.meets_bind]
    apply (copyEntries_meets dir entries hlisted.nodup w₁).mono
    intro _ w₂ hcopies _
    exact ⟨hcopies.data, hcopies.posted, fun source content hcontent =>
      hcopies.copied source (hsource hcontent) content hcontent⟩

def edFiles (entries : List DirEntry) : List FileName :=
  (entries.filter fun e => !e.isDir && isEd e.file).map DirEntry.file

/-- What the uploads of `files` from the capture directory leave: each is posted
once, with its content, or is on the account, and each is counted. -/
structure Uploaded (files : List FileName) (t : Tally) (w : EdWorld) (t' : Tally) (w' : EdWorld)
    (new : List (FileName × Bytes)) : Prop where
  data : w'.data = w.data
  cwd : w'.cwd = w.cwd
  failed : w.failed ⊆ w'.failed
  posted : w'.posted = w.posted ++ new
  once : (new.map Prod.fst).Sublist files
  content : ∀ post ∈ new, w.cwd.lookup post.1 = some (.file post.2)
  accounted : ∀ file ∈ files, ∀ content, w.cwd.lookup file = some (.file content) →
    file ∈ w'.failed ∨ (file, content) ∈ new
  counted : t'.successCount + t'.failCount = t.successCount + t.failCount + files.length

theorem uploadEntries_meets (endpoint : String) (entries : List DirEntry) (t : Tally)
    (w : EdWorld) :
    (uploadEntries endpoint t entries).Meets Perform w fun t' w' =>
      ∃ new, Uploaded (edFiles entries) t w t' w' new := by
  induction entries generalizing t w with
  | nil =>
    exact ⟨[], rfl, rfl, fun _ h => h, by simp, .slnil, nofun, nofun, rfl⟩
  | cons entry rest ih =>
    by_cases hskip : (entry.isDir || !isEd entry.file) = true
    · have hfiles : edFiles (entry :: rest) = edFiles rest := by
        simp only [edFiles]
        rw [List.filter_cons_of_neg]
        simpa [Bool.or_eq_true, imp_iff_not_or] using hskip
      rw [uploadEntries, if_pos hskip, hfiles]
      exact ih t w
    · have hfiles : edFiles (entry :: rest) = entry.file :: edFiles rest := by
        simp only [edFiles]
        rw [List.filter_cons_of_pos, List.map_cons]
        simpa [Bool.or_eq_true, not_or] using hskip
      rw [uploadEntries, if_neg hskip, hfiles]
      rintro (err | content) w₁ hopen
      · cases hopen
        rintro ⟨⟩ w₂ rfl
        apply (ih _ _).mono
        rintro t' w' ⟨new, h⟩
        refine ⟨new, h.data, h.cwd, fun f hf => h.failed (List.mem_append_left _ hf), h.posted,
          h.once.cons _, h.content, ?_, ?_⟩
        · intro file hfile c hc
          rcases List.mem_cons.1 hfile with rfl | hfile
          · exact .inl (h.failed (by simp))
          · exact h.accounted file hfile c hc
        · have := h.counted
          simp only [List.length_cons] at this ⊢
          omega
      · obtain ⟨hcontent, rfl⟩ := hopen
        rintro ⟨msg, ok⟩ w₂ rfl
        apply (ih _ _).mono
        rintro t' w' ⟨new, h⟩
        refine ⟨(entry.file, content) :: new, h.data, h.cwd, h.failed, ?_, ?_, ?_, ?_, ?_⟩
        · rw [h.posted, List.append_assoc]
          rfl
        · exact h.once.cons_cons _
        · intro post hpost
          rcases List.mem_cons.1 hpost with rfl | hpost
          · exact hcontent
          · exact h.content post hpost
        · intro file hfile c hc
          rcases List.mem_cons.1 hfile with rfl | hfile
          · cases hcontent.symm.trans hc
            exact .inr List.mem_cons_self
          · exact (h.accounted file hfile c hc).imp_right (List.mem_cons_of_mem _)
        · have := h.counted
          cases ok <;>
            simp only [List.length_cons, Bool.false_eq_true, if_true, if_false] at this ⊢ <;>
            omega

/-- What is known when the capture reports no error: each file of the data directory
was uploaded or is on record as failed, no name was uploaded twice, and the summary
accounts for all of the files. -/
structure Delivered (c : EdConfig) (w : EdWorld) (result : Result) (w' : EdWorld) : Prop where
  accounted : ∀ source content, w'.data.lookup source = some (.file content) →
    edName source ∈ w'.failed ∨ (edName source, content) ∈ w'.posted
  posts : ∃ new, w'.posted = w.posted ++ new ∧ (new.map Prod.fst).Nodup ∧
    ∀ post ∈ new, isEd post.1 = true ∧ w'.cwd.lookup post.1 = some (.file post.2)
  summarised : ∃ t entries, result = summary c.onlyCapture t ∧ Lists w'.cwd entries ∧
    t.successCount + t.failCount = (edFiles entries).length

theorem uploadCapturedFiles_meets (c : EdConfig) (w : EdWorld)
    (hcopied : ∀ source content, w.data.lookup source = some (.file content) →
      Copied w source content) :
    (uploadCapturedFiles c).Meets Perform w fun out w' => out.2 = false →
      Delivered c w out.1 w' := by
  unfold uploadCapturedFiles
  rintro (err | entries) w₁ ⟨hlists, rfl⟩
  · exact nofun
  have hlisted := hlists entries rfl
  have hed {source : FileName} {content : Bytes}
      (h : w₁.cwd.lookup (edName source) = some (.file content)) : edName source ∈ edFiles
        entries :=
    hlisted.mem_files h (by simp [isEd_edName])
  change Prog.Meets Perform (uploadEntries c.endpoint {} entries >>= _) w₁ _
  rw [Prog.meets_bind]
  apply (uploadEntries_meets c.endpoint entries {} w₁).mono
  rintro t w' ⟨new, h⟩ _
  have hsublist : (edFiles entries).Sublist (entries.map DirEntry.file) :=
    List.filter_sublist.map _
  refine ⟨?_, ⟨new, h.posted, (hlisted.nodup.sublist hsublist).sublist h.once, ?_⟩, t, entries, rfl,
    h.cwd ▸ hlisted, by simpa using h.counted⟩
  · intro source content hcontent
    rw [h.data] at hcontent
    rcases hcopied source content hcontent with hfailed | hcwd
    · exact .inl (h.failed hfailed)
    · rw [h.posted]
      exact (h.accounted _ (hed hcwd) content hcwd).imp_right (List.mem_append_right _)
  · intro post hpost
    refine ⟨?_, h.cwd ▸ h.content post hpost⟩
    obtain ⟨e, he, heq⟩ := List.mem_map.1 (h.once.subset (List.mem_map_of_mem hpost))
    rw [← heq]
    have := (List.mem_filter.1 he).2
    simp only [Bool.and_eq_true] at this
    exact this.2

theorem executeScript_meets (c : EdConfig) (w : EdWorld) :
    (executeScript c).Meets Perform w fun _ w' => w'.posted = w.posted := by
  unfold executeScript
  rintro ⟨⟩ w₁ rfl
  rintro (err | ⟨⟩) w₂ ⟨data₂, rfl⟩
  · exact rfl
  rintro (err | skipped) w₃ ⟨data₃, rfl⟩
  · exact rfl
  change Prog.Meets Perform (if skipped = true then _ else _) _ _
  split
  · rintro ⟨⟩ w₄ rfl
    exact rfl
  rintro (⟨_ | err, code⟩ | _) w₄ ⟨data₄, rfl⟩
  · change Prog.Meets Perform (if code ≠ 0 then _ else _) _ _
    split
    · exact rfl
    · rintro ⟨⟩ w₅ rfl
      exact rfl
  · exact rfl
  · rintro ⟨⟩ w₅ rfl
    rintro (_ | err) w₆ ⟨data₆, rfl⟩
    · exact rfl
    · rintro ⟨⟩ w₇ rfl
      exact rfl

/-- Whatever calls fail, a capture that reports no error has posted every file of
the data folder once and unchanged, unless a call that failed for it is on the
account; it has posted nothing else than the `ed-` files of the capture directory,
and its message counts each of these. -/
theorem run_delivers (c : EdConfig) (w : EdWorld) :
    (run c).Meets Perform w fun out w' => out.2 = false → Delivered c w out.1 w' := by
  have hfails (errMsg : String) (w₁ : EdWorld) :
      (run.failed errMsg).Meets Perform w₁ fun out w' => out.2 = false →
        Delivered c w out.1 w' := by
    rintro ⟨⟩ w₂ rfl
    exact nofun
  unfold run
  rintro (err | ⟨⟩) w₁ ⟨data₁, rfl⟩
  · exact hfails _ _
  change Prog.Meets Perform (executeScript c >>= _) _ _
  rw [Prog.meets_bind]
  apply (executeScript_meets c _).mono
  rintro (_ | err) w₂ hscript
  · change Prog.Meets Perform (captureEdFiles c.dataFolder >>= _) _ _
    rw [Prog.meets_bind]
    apply (captureEdFiles_meets c.dataFolder w₂).mono
    rintro (_ | err) w₃ hcaptured
    · obtain ⟨hdata, hposted, hcopied⟩ := hcaptured rfl
      apply (uploadCapturedFiles_meets c w₃ (hdata ▸ hcopied)).mono
      intro out w' hdelivered hout
      obtain ⟨haccounted, ⟨new, hnew, hposts⟩, hsummarised⟩ := hdelivered hout
      exact ⟨haccounted, ⟨new, by rw [hnew, hposted, hscript], hposts⟩, hsummarised⟩
    · exact hfails _ _
  · exact hfails _ _

def entriesOf (dir : Dir) : List DirEntry :=
  dir.entries.map fun ⟨file, node⟩ => ⟨file, node.isDir⟩

theorem lists_entriesOf (dir : Dir) : Lists dir (entriesOf dir) where
  nodup := by
    rw [entriesOf, List.map_map]
    exact dir.nodupKeys
  mem_iff := by
    intro e
    simp only [entriesOf, List.mem_map, AList.lookup, ← Option.mem_def,
      List.mem_dlookup_iff dir.nodupKeys]
    constructor
    · rintro ⟨⟨file, node⟩, hmem, rfl⟩
      exact ⟨node, hmem, rfl⟩
    · rintro ⟨node, hmem, hdir⟩
      exact ⟨⟨e.file, node⟩, hmem, by rw [hdir]⟩

def report : FileName := ⟨ascii "report.txt", by decide, by decide, by decide⟩

/-- A host on which the script leaves a report of two bytes, which is copied as a
whole or only by half. -/
def sampleHost (copies : Bool) : (op : EdOp) → EdWorld → op.Reply × EdWorld
  | .mkdirAll _, w => (.ok (), w)
  | .createScriptLog _, w => (.ok (), w)
  | .start _, w => (.ok false, w)
  | .wait, w => (.exited none 0, { w with data := w.data.insert report (.file [79, 75]) })
  | .kill, w => (none, w)
  | .readDataFolder _, w => (.ok (entriesOf w.data), w)
  | .openSource _ _, w => (.ok (), w)
  | .create file, w =>
    match w.cwd.lookup file with
    | some .dir => (.error "is a directory", { w with failed := w.failed ++ [file] })
    | _ => (.ok (), { w with cwd := w.cwd.insert file (.file []) })
  | .copy source dst, w =>
    match copies, w.data.lookup source with
    | true, some (.file content) => (none, { w with cwd := w.cwd.insert dst (.file content) })
    | _, _ => (some "no space left on device",
        { w with cwd := w.cwd.insert dst (.file [79]), failed := w.failed ++ [dst] })
  | .readDir, w => (.ok (entriesOf w.cwd), w)
  | .openFile file, w =>
    match w.cwd.lookup file with
    | some (.file content) => (.ok content, w)
    | _ => (.error "no such file or directory", { w with failed := w.failed ++ [file] })
  | .postData _ file _ content, w =>
    (("", true), { w with posted := w.posted ++ [(file, content)] })
  | .log _, w => ((), w)
  | .logCopyFailed _ _ _ _, w => ((), w)
  | .logOpenFailed _ _, w => ((), w)

theorem sampleHost_performs (copies : Bool) (op : EdOp) (w : EdWorld) :
    Perform op w (sampleHost copies op w).1 (sampleHost copies op w).2 := by
  cases op with
  | mkdirAll | createScriptLog | start | wait | kill => exact ⟨_, rfl⟩
  | readDataFolder | readDir =>
    refine ⟨fun entries heq => ?_, rfl⟩
    cases heq
    exact lists_entriesOf _
  | create file =>
    simp only [sampleHost]
    split
    · rfl
    · next hdir => exact ⟨hdir, rfl⟩
  | copy source dst =>
    simp only [sampleHost]
    split
    · next content hcontent => exact ⟨content, hcontent, rfl⟩
    · exact ⟨_, rfl⟩
  | openFile file =>
    simp only [sampleHost]
    split
    · next content hcontent => exact ⟨hcontent, rfl⟩
    · rfl
  | openSource | postData | log | logCopyFailed | logOpenFailed => rfl

def sampleConfig : EdConfig := ⟨"collect.sh", "/tmp/ed", "https://example", false⟩

def emptyDirs : EdWorld := ⟨∅, ∅, [], []⟩

/-- The report of the script is uploaded. If its copy fails, what was copied is
uploaded, and the failure is on the account. -/
theorem report_delivered_or_lost :
    (∃ trace result w', Runs Perform (run sampleConfig) emptyDirs trace (result, false) w' ∧
      Delivered sampleConfig emptyDirs result w' ∧
      w'.failed = [] ∧ w'.posted = [(edName report, [79, 75])]) ∧
    ∃ trace result w', Runs Perform (run sampleConfig) emptyDirs trace (result, false) w' ∧
      Delivered sampleConfig emptyDirs result w' ∧
      w'.failed = [edName report] ∧ w'.posted = [(edName report, [79])] := by
  have hdelivered {trace : Trace EdOp EdOp.Reply EdWorld} {result : Result} {w' : EdWorld}
      (hrun : Runs Perform (run sampleConfig) emptyDirs trace (result, false) w') :
      Delivered sampleConfig emptyDirs result w' :=
    Runs.of_meets (run_delivers sampleConfig emptyDirs) hrun rfl
  have hcopied : Runs Perform (run sampleConfig) emptyDirs _ (_, false) _ :=
    play_runs (sampleHost_performs true) (run sampleConfig) emptyDirs
  have hlost : Runs Perform (run sampleConfig) emptyDirs _ (_, false) _ :=
    play_runs (sampleHost_performs false) (run sampleConfig) emptyDirs
  exact ⟨⟨_, _, _, hcopied, hdelivered hcopied, rfl, rfl⟩,
    ⟨_, _, _, hlost, hdelivered hlost, rfl, rfl⟩⟩

end YcAgent.Capture.ExtendedData
