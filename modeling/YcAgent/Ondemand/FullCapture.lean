import YcAgent.Ondemand.Compress

/-!
The frame of `FullCapture`: the capture directory is made and entered, the
captures write into it, and three deferred calls leave it again, pack it in
only-capture mode and delete it. The deletion was deferred first and so runs
last, whatever has become of the archive.
-/

namespace YcAgent.Ondemand

open Go Lib.Program

structure CaptureConfig where
  m3 : Bool
  onlyCapture : Bool
  deferDelete : Bool

/-- The deferred return to the directory `FullCapture` started in; errors are
only logged. -/
def leave (cfg : CaptureConfig) (captureDir dir : FilePath) : FsProg Unit := do
  match ← ask (.chdir dir) with
  | .error _ => return ()
  | .ok () =>
    if cfg.onlyCapture then
      let _ ← compressFolder captureDir
      return ()
    else return ()

/-- In M3 mode `FullCapture` stays in the directory of the M3 cycle. -/
def unlessM3 (cfg : CaptureConfig) (step : FsProg (Except Err Unit)) : FsProg (Except Err Unit) :=
  if cfg.m3 then return .ok () else step

def captureInside (cfg : CaptureConfig) (captureDir : FilePath) : FsProg Unit := do
  match ← ask .getwd with
  | .error _ => return ()
  | .ok dir =>
  match ← unlessM3 cfg (ask (.chdir captureDir)) with
  | .error _ => return ()
  | .ok () =>
    ask .capture
    leave cfg captureDir dir

def fullCapture (cfg : CaptureConfig) (captureDir : FilePath) : FsProg Unit := do
  match ← unlessM3 cfg (ask (.mkdir captureDir)) with
  | .error _ => return ()
  | .ok () =>
    captureInside cfg captureDir
    if cfg.deferDelete then
      let _ ← ask (.removeAll captureDir)
      return ()
    else return ()

/-- The steps of a trace that add to an archive. -/
structure SameSteps (trace trace' : FsTrace) : Prop where
  headers : headersDone trace = headersDone trace'
  copies : copiesDone trace = copiesDone trace'
  closes : closesDone trace = closesDone trace'

theorem SameSteps.complete_iff {trace trace' : FsTrace} (h : SameSteps trace trace')
    (entries : List Entry) : Complete trace entries ↔ Complete trace' entries := by
  constructor
  · rintro ⟨hpacked, hclosed⟩
    rw [h.headers, h.copies] at hpacked
    rw [h.closes] at hclosed
    exact ⟨hpacked, hclosed⟩
  · rintro ⟨hpacked, hclosed⟩
    rw [← h.headers, ← h.copies] at hpacked
    rw [← h.closes] at hclosed
    exact ⟨hpacked, hclosed⟩

theorem compressFolder_missing {folder : FilePath} {w w' : World} {trace : FsTrace}
    {r : Except Err FilePath} (hrun : Runs Perform (compressFolder folder) w trace r w')
    (hmissing : w.dirs (folder.resolve w.cwd) = none) : w' = w := by
  simp only [compressFolder, ask_bind] at hrun
  obtain ⟨isDir, w₁, t₁, ⟨hw₁, hstat⟩, _, h₁⟩ := hrun.of_act
  subst hw₁
  cases isDir with
  | error err => exact h₁.of_done.2.2
  | ok isDir =>
    obtain rfl : isDir = false := by simpa [hmissing] using hstat isDir rfl
    exact h₁.of_done.2.2

/-- What the captures and the deferred return leave: no archive was begun, or
the directory was packed from where `FullCapture` started. -/
inductive Left (captureDir : FilePath) (w : World) (trace : FsTrace) (w' : World) : Prop
  | unpacked : w'.archives = w.archives → SameSteps trace [] → Left captureDir w trace w'
  | packed (start : World) (steps : FsTrace) (r : Except Err FilePath) :
      start.cwd = w.cwd → start.archives = w.archives →
      Runs Perform (compressFolder captureDir) start steps r w' → SameSteps trace steps →
      Left captureDir w trace w'

theorem SameSteps.append {first second steps : FsTrace} (hfirst : SameSteps first [])
    (hsecond : SameSteps second steps) : SameSteps (first ++ second) steps where
  headers := by rw [headersDone_append, hfirst.headers, hsecond.headers]; rfl
  copies := by rw [copiesDone_append, hfirst.copies, hsecond.copies]; rfl
  closes := by rw [closesDone_append, hfirst.closes, hsecond.closes]; rfl

theorem unlessM3_runs {cfg : CaptureConfig} {step : FsProg (Except Err Unit)} {w w' : World}
    {trace : FsTrace} {r : Except Err Unit}
    (hrun : Runs Perform (unlessM3 cfg step) w trace r w') :
    (trace = [] ∧ r = .ok () ∧ w' = w) ∨ Runs Perform step w trace r w' := by
  unfold unlessM3 at hrun
  split at hrun
  · exact .inl hrun.of_done
  · exact .inr hrun

theorem unlessM3_chdir {cfg : CaptureConfig} {p : FilePath} {w w' : World} {trace : FsTrace}
    {r : Except Err Unit} (hrun : Runs Perform (unlessM3 cfg (ask (.chdir p))) w trace r w') :
    w'.archives = w.archives ∧ SameSteps trace [] := by
  rcases unlessM3_runs hrun with ⟨rfl, _, rfl⟩ | hstep
  · exact ⟨rfl, rfl, rfl, rfl⟩
  · obtain ⟨reply, w₁, t₁, hchdir, rfl, h₁⟩ := hstep.of_act
    obtain ⟨rfl, _, rfl⟩ := h₁.of_done
    cases reply with
    | error err =>
      cases hchdir
      exact ⟨rfl, rfl, rfl, rfl⟩
    | ok _ =>
      cases hchdir
      exact ⟨rfl, rfl, rfl, rfl⟩

theorem unlessM3_mkdir {cfg : CaptureConfig} {p : FilePath} {w w' : World} {trace : FsTrace}
    {r : Except Err Unit} (hrun : Runs Perform (unlessM3 cfg (ask (.mkdir p))) w trace r w') :
    w'.cwd = w.cwd ∧ w'.archives = w.archives ∧ SameSteps trace [] ∧
      ∀ e ∈ trace, e.op = .mkdir p := by
  rcases unlessM3_runs hrun with ⟨rfl, _, rfl⟩ | hstep
  · exact ⟨rfl, rfl, ⟨rfl, rfl, rfl⟩, by simp⟩
  · obtain ⟨reply, w₁, t₁, hmkdir, rfl, h₁⟩ := hstep.of_act
    obtain ⟨rfl, _, rfl⟩ := h₁.of_done
    cases reply with
    | error err =>
      cases hmkdir
      exact ⟨rfl, rfl, ⟨rfl, rfl, rfl⟩, by simp⟩
    | ok _ =>
      obtain ⟨_, rfl⟩ := hmkdir
      exact ⟨rfl, rfl, ⟨rfl, rfl, rfl⟩, by simp⟩

theorem leave_left {cfg : CaptureConfig} {captureDir : FilePath} {cwd : String} {w w₀ w' : World}
    {trace : FsTrace} (hrun : Runs Perform (leave cfg captureDir ⟨true, cwd⟩) w trace () w')
    (hcwd : w₀.cwd = cwd) (harchives : w.archives = w₀.archives) :
    Left captureDir w₀ trace w' := by
  simp only [leave, ask_bind] at hrun
  obtain ⟨reply, w₁, t₁, hchdir, rfl, h₁⟩ := hrun.of_act
  cases reply with
  | error err =>
    cases hchdir
    obtain ⟨rfl, _, rfl⟩ := h₁.of_done
    exact .unpacked harchives ⟨rfl, rfl, rfl⟩
  | ok _ =>
    cases hchdir
    dsimp only at h₁
    split at h₁
    · obtain ⟨t₂, r, w₂, t₃, rfl, hcompress, h₃⟩ := h₁.of_bind
      obtain ⟨rfl, _, rfl⟩ := h₃.of_done
      refine .packed { w with cwd := cwd } t₂ r hcwd.symm harchives hcompress ?_
      rw [List.append_nil]
      exact ⟨rfl, rfl, rfl⟩
    · obtain ⟨rfl, _, rfl⟩ := h₁.of_done
      exact .unpacked harchives ⟨rfl, rfl, rfl⟩

theorem Left.after {captureDir : FilePath} {w w' : World} {first second : FsTrace}
    (hfirst : SameSteps first []) (h : Left captureDir w second w') :
    Left captureDir w (first ++ second) w' := by
  cases h with
  | unpacked harchives hsteps => exact .unpacked harchives (hfirst.append hsteps)
  | packed start steps r hcwd harchives hrun hsteps =>
    exact .packed start steps r hcwd harchives hrun (hfirst.append hsteps)

theorem captureInside_left {cfg : CaptureConfig} {captureDir : FilePath} {w w' : World}
    {trace : FsTrace} (hrun : Runs Perform (captureInside cfg captureDir) w trace () w') :
    Left captureDir w trace w' := by
  simp only [captureInside, ask_bind] at hrun
  obtain ⟨found, w₁, t₁, ⟨hw₁, hgetwd⟩, rfl, h₁⟩ := hrun.of_act
  subst hw₁
  cases found with
  | error err =>
    obtain ⟨rfl, _, rfl⟩ := h₁.of_done
    exact .unpacked rfl ⟨rfl, rfl, rfl⟩
  | ok dir =>
    obtain rfl := hgetwd dir rfl
    obtain ⟨t₂, entered, w₂, t₃, rfl, henter, h₃⟩ := h₁.of_bind
    obtain ⟨harchives, hquiet⟩ := unlessM3_chdir henter
    rw [← List.singleton_append]
    refine .after ⟨rfl, rfl, rfl⟩ (.after hquiet ?_)
    cases entered with
    | error err =>
      obtain ⟨rfl, _, rfl⟩ := h₃.of_done
      exact .unpacked harchives ⟨rfl, rfl, rfl⟩
    | ok _ =>
      obtain ⟨_, w₄, t₄, hcapture, rfl, h₄⟩ := h₃.of_act
      obtain ⟨_, hkept, _⟩ := hcapture
      rw [← List.singleton_append]
      refine .after ⟨rfl, rfl, rfl⟩ ?_
      exact leave_left h₄ rfl (hkept.trans harchives)

theorem Perform.removeAll_archives {p : FilePath} {w w' : World} {r : Except Err Unit}
    (h : Perform (.removeAll p) w r w') : w'.archives = w.archives := by
  cases r with
  | error err => exact h.2.1
  | ok _ =>
    cases h
    rfl

/-- A run of `FullCapture` that ends with the deletion of its directory: the
regular files the directory had then are in the archive if every archive step
that matters succeeded. Unless an archive of that name was there before, they
are in it, whenever the directory is gone, exactly if these steps succeeded or
the deletion did not. -/
theorem removed_archived_iff (cfg : CaptureConfig) (captureDir : FilePath) (w before w' : World)
    (trace : FsTrace) (reply : Except Err Unit) (listing : Listing)
    (hdelete : cfg.deferDelete = true)
    (hrun : Runs Perform (fullCapture cfg captureDir) w
      (trace ++ [⟨before, .removeAll captureDir, reply⟩]) () w')
    (hdir : before.dirs (captureDir.resolve w.cwd) = some listing) :
    (Complete trace listing.entries →
      Archived (filepathBase (captureDir.resolve w.cwd)) listing.entries
        (w'.archives ((zstName captureDir).resolve w.cwd))) ∧
    (w.archives ((zstName captureDir).resolve w.cwd) = none →
      ((w'.dirs (captureDir.resolve w.cwd) = none →
          Archived (filepathBase (captureDir.resolve w.cwd)) listing.entries
            (w'.archives ((zstName captureDir).resolve w.cwd))) ↔
        (w'.dirs (captureDir.resolve w.cwd) = none → Complete trace listing.entries))) := by
  obtain ⟨t₁, made, w₁, t₂, htrace, hmake, h₂⟩ := hrun.of_bind
  obtain ⟨hcwd, harchives, hquiet, hmkdir⟩ := unlessM3_mkdir hmake
  cases made with
  | error err =>
    obtain ⟨rfl, _, _⟩ := h₂.of_done
    rw [List.append_nil] at htrace
    have hop := hmkdir ⟨before, .removeAll captureDir, reply⟩ (by rw [← htrace]; simp)
    cases hop
  | ok _ =>
  obtain ⟨t₃, _, w₂, t₄, rfl, hinside, h₄⟩ := h₂.of_bind
  rw [if_pos hdelete] at h₄
  obtain ⟨reply', w₃, t₅, hremove, rfl, h₅⟩ := h₄.of_act
  obtain ⟨rfl, _, rfl⟩ := h₅.of_done
  rw [← List.append_assoc] at htrace
  obtain ⟨rfl, hlast⟩ := List.append_inj' htrace rfl
  cases hlast
  have hkept := hremove.removeAll_archives
  suffices hmain : (Complete (t₁ ++ t₃) listing.entries →
        Archived (filepathBase (captureDir.resolve w.cwd)) listing.entries
          (before.archives ((zstName captureDir).resolve w.cwd))) ∧
      (w.archives ((zstName captureDir).resolve w.cwd) = none →
        Archived (filepathBase (captureDir.resolve w.cwd)) listing.entries
          (before.archives ((zstName captureDir).resolve w.cwd)) →
        Complete (t₁ ++ t₃) listing.entries) by
    rw [hkept]
    refine ⟨hmain.1, ?_⟩
    intro hfresh
    exact ⟨fun h hgone => hmain.2 hfresh (h hgone), fun h hgone => hmain.1 (h hgone)⟩
  cases captureInside_left hinside with
  | unpacked hsame hsteps =>
    refine archived_of_no_closes (hquiet.append hsteps).closes ?_
    rw [hsame, harchives]
  | packed start steps r hstart hbegun hcompress hsteps =>
    have hroot : start.cwd = w.cwd := hstart.trans hcwd
    have hfolder : start.dirs (captureDir.resolve start.cwd) = some listing := by
      cases hstarted : start.dirs (captureDir.resolve start.cwd) with
      | none =>
        rw [compressFolder_missing hcompress hstarted, ← hroot, hstarted] at hdir
        cases hdir
      | some found =>
        obtain ⟨_, hdirs, _⟩ := compressFolder_archived hcompress hstarted
        rw [← hstarted, ← hdirs, hroot]
        exact hdir
    obtain ⟨_, _, hsufficient, hnecessary⟩ := compressFolder_archived hcompress hfolder
    rw [(hquiet.append hsteps).complete_iff, ← harchives, ← hbegun, ← hroot]
    exact ⟨hsufficient, hnecessary⟩

/-- A host whose disk may be too full for the data of the archive. The captures
leave `captured` in the directory they run in. -/
def respond (captured : Listing) (full : Bool) : (op : Op) → World → Option (op.Reply × World)
  | .mkdir p, w =>
    if (w.dirs (p.resolve w.cwd)).isNone then
      some (.ok (), w.setDir (p.resolve w.cwd) (some .empty))
    else none
  | .getwd, w => some (.ok ⟨true, w.cwd⟩, w)
  | .chdir p, w => some (.ok (), { w with cwd := p.resolve w.cwd })
  | .capture, w => some ((), w.setDir w.cwd (some captured))
  | .removeAll p, w => some (.ok (), w.setDir (p.resolve w.cwd) none)
  | .stat p, w => some (.ok (w.dirs (p.resolve w.cwd)).isSome, w)
  | .create p, w => some (.ok (p.resolve w.cwd), w.setArchive (p.resolve w.cwd) .empty)
  | .newWriter, w => some (.ok (), w)
  | .abs p, w => some (.ok (p.resolve w.cwd), w)
  | .walk p, w => (w.dirs (p.resolve w.cwd)).map fun listing => (listing.entries, w)
  | .visit _, w => some (.ok (), w)
  | .absEntry _, w => some (.ok (), w)
  | .relEntry _, w => some (.ok (), w)
  | .fileInfoHeader _, w => some (.ok (), w)
  | .openFile _, w => some (.ok (), w)
  | .closeFile _, w => some (.ok (), w)
  | .writeHeader out base e, w =>
    match w.archives out with
    | none => none
    | some a =>
      if a.broken = false ∧ a.Settled then
        some (.ok (), w.setArchive out (a.startMember base e))
      else none
  | .copy out e, w =>
    (w.archives out).map fun a =>
      if full then
        (.error "no space left on device",
          w.setArchive out { a.setLastData [] with broken := true })
      else (.ok (), w.setArchive out (a.setLastData e.data))
  | .close writer out, w =>
    match w.archives out with
    | none => none
    | some a =>
      if ¬ writer = .tar ∨ (a.broken = false ∧ a.Settled) then
        some (.ok (), w.setArchive out (a.close writer))
      else some (.error "missed writing bytes", w)

theorem respond_sound {captured : Listing} {full : Bool} {op : Op} {w w' : World} {r : op.Reply}
    (h : respond captured full op w = some (r, w')) : Perform op w r w' := by
  cases op with
  | mkdir p =>
    simp only [respond] at h
    split at h
    · next hnone =>
        cases h
        exact ⟨by simpa using hnone, rfl⟩
    · cases h
  | getwd =>
    cases h
    refine ⟨rfl, ?_⟩
    rintro dir ⟨⟩
    rfl
  | capture =>
    cases h
    refine ⟨rfl, rfl, ?_⟩
    intro dir hdir
    by_cases hcwd : dir = w.cwd
    · simp [World.setDir, hcwd]
    · simpa [World.setDir, hcwd] using hdir
  | stat p =>
    cases h
    refine ⟨rfl, ?_⟩
    rintro isDir ⟨⟩
    rfl
  | create p =>
    cases h
    exact ⟨rfl, rfl⟩
  | abs p =>
    cases h
    refine ⟨rfl, ?_⟩
    rintro path ⟨⟩
    rfl
  | walk p =>
    obtain ⟨listing, hlisting, heq⟩ := Option.map_eq_some_iff.mp h
    cases heq
    refine ⟨rfl, ?_⟩
    intro found hfound
    rw [hlisting] at hfound
    cases hfound
    rfl
  | writeHeader out base e =>
    simp only [respond] at h
    split at h
    · cases h
    · next a ha =>
        split at h
        · next hready =>
            cases h
            exact ⟨a, ha, hready.1, hready.2, rfl⟩
        · cases h
  | copy out e =>
    obtain ⟨a, ha, heq⟩ := Option.map_eq_some_iff.mp h
    cases full with
    | true =>
      cases heq
      refine ⟨a, true, [], ha, List.nil_prefix, ?_, rfl⟩
      by_cases hempty : e.data = []
      · exact .inl hempty
      · exact .inr (Ne.symm hempty)
    | false =>
      cases heq
      exact ⟨a, ha, rfl⟩
  | close writer out =>
    simp only [respond] at h
    split at h
    · cases h
    · next a ha =>
        split at h
        · next hready =>
            cases h
            exact ⟨a, ha, fun htar => hready.resolve_left fun hnot => hnot htar, rfl⟩
        · cases h
          rfl
  | _ =>
    cases h
    rfl

def dumps : Listing := ⟨[⟨"threaddump.out", .regular, [65]⟩], by decide⟩

def home : World := ⟨"/home", fun _ => none, fun _ => none⟩

def onlyCapture : CaptureConfig := ⟨false, true, true⟩

theorem sample_capture (full : Bool) : ∃ trace before w',
    Runs Perform (fullCapture onlyCapture ⟨false, "yc-1"⟩) home
        (trace ++ [⟨before, .removeAll ⟨false, "yc-1"⟩, .ok ()⟩]) () w' ∧
      before.dirs "/home/yc-1" = some dumps ∧ w'.dirs "/home/yc-1" = none ∧
      (full = true → (w'.archives "/home/yc-1.zst").map Archive.decode = some none) ∧
      (full = false → headersDone trace = dumps.entries ∧ copiesDone trace = dumps.entries ∧
        closesDone trace = [.tar, .enc, .out]) := by
  have hsound : ∀ m ∈ List.replicate 22 (Move.answer (respond dumps full)),
      m.Sound (Semantics.alone Perform) := by
    intro m hm
    rw [List.eq_of_mem_replicate hm]
    intro op w r w' h
    exact respond_sound h
  have hrun : ∃ trace p' w', Steps (.alone Perform)
      (fullCapture onlyCapture ⟨false, "yc-1"⟩) home trace p' w' ∧ p' = .done () ∧
      ∃ before, trace = trace.dropLast ++ [⟨before, .removeAll ⟨false, "yc-1"⟩, .ok ()⟩] ∧
        before.dirs "/home/yc-1" = some dumps ∧ w'.dirs "/home/yc-1" = none ∧
        (full = true → (w'.archives "/home/yc-1.zst").map Archive.decode = some none) ∧
        (full = false → headersDone trace.dropLast = dumps.entries ∧
          copiesDone trace.dropLast = dumps.entries ∧
          closesDone trace.dropLast = [.tar, .enc, .out]) := by
    cases full with
    | true =>
      exact exists_steps hsound ⟨_, rfl, rfl, _, rfl, rfl, rfl, fun _ => rfl, by rintro ⟨⟩⟩
    | false =>
      exact exists_steps hsound
        ⟨_, rfl, rfl, _, rfl, rfl, rfl, by rintro ⟨⟩, fun _ => ⟨rfl, rfl, rfl⟩⟩
  obtain ⟨trace, _, w', hsteps, rfl, before, htrace, hfacts⟩ := hrun
  rw [htrace] at hsteps
  exact ⟨trace.dropLast, before, w', hsteps, hfacts⟩

/-- The disk is full when the thread dump is copied into the archive: the error
is logged, the directory is deleted, and the archive cannot be read. -/
theorem full_disk_loses_dumps : ∃ trace before w',
    Runs Perform (fullCapture onlyCapture ⟨false, "yc-1"⟩) home
        (trace ++ [⟨before, .removeAll ⟨false, "yc-1"⟩, .ok ()⟩]) () w' ∧
      before.dirs "/home/yc-1" = some dumps ∧ w'.dirs "/home/yc-1" = none ∧
      ¬ Archived "yc-1" dumps.entries (w'.archives "/home/yc-1.zst") := by
  obtain ⟨trace, before, w', hrun, hdir, hgone, hbroken, _⟩ := sample_capture true
  refine ⟨trace, before, w', hrun, hdir, hgone, ?_⟩
  rintro ⟨a, members, ha, hdecode, _⟩
  have hnone := hbroken rfl
  rw [ha, Option.map_some, hdecode] at hnone
  cases hnone

theorem dumps_archived : ∃ trace before w',
    Runs Perform (fullCapture onlyCapture ⟨false, "yc-1"⟩) home
        (trace ++ [⟨before, .removeAll ⟨false, "yc-1"⟩, .ok ()⟩]) () w' ∧
      w'.dirs "/home/yc-1" = none ∧
      Archived (filepathBase "/home/yc-1") dumps.entries (w'.archives "/home/yc-1.zst") := by
  obtain ⟨trace, before, w', hrun, hdir, hgone, _, hsteps⟩ := sample_capture false
  obtain ⟨hheaders, hcopies, hcloses⟩ := hsteps rfl
  have hcomplete : Complete trace dumps.entries := by
    constructor
    · intro e he _
      rw [hheaders, hcopies]
      exact ⟨he, .inr he⟩
    · intro writer
      rw [hcloses]
      cases writer <;> decide
  refine ⟨trace, before, w', hrun, hgone, ?_⟩
  exact (removed_archived_iff onlyCapture ⟨false, "yc-1"⟩ home before w' trace (.ok ()) dumps rfl
    hrun hdir).1 hcomplete

end YcAgent.Ondemand
