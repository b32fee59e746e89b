import YcAgent.Capture.TailContract

/-!
The tailers on a log that only grows. Successive calls copy it without a gap
and without an overlap from the size the first call saw, and the stored read
position never runs ahead of the log. A call that fails keeps the stored
position unless it is the delivery of copied bytes that fails.
-/

namespace YcAgent.Capture.Tail

open Go Lib.Program

/-- The log's path keeps its file, which only grows; everything else may
change, except the log's own read position. -/
structure GrowsOnly (path : Path) (w w' : World) : Prop where
  readStat : w'.readStats path = w.readStats path
  file : w'.files path = w.files path
  grows : ∀ i, w.files path = some i → w.content i <+: w'.content i

theorem keepsStat_growsOnly (path : Path) : KeepsStat path (GrowsOnly path) :=
  fun _ _ h => h.readStat

structure Grown (path : Path) (w w' : World) : Prop where
  file : w'.files path = w.files path
  grows : ∀ i, w.files path = some i → w.content i <+: w'.content i

variable {agent : Agent} {path : Path}

theorem Grown.refl (w : World) : Grown path w w :=
  ⟨rfl, fun _ _ => List.prefix_refl _⟩

theorem Grown.trans {w₁ w₂ w₃ : World} (h₁ : Grown path w₁ w₂) (h₂ : Grown path w₂ w₃) :
    Grown path w₁ w₃ where
  file := h₂.file.trans h₁.file
  grows i hi := (h₁.grows i hi).trans (h₂.grows i (h₁.file.trans hi))

theorem Grown.length_le {w w' : World} {i : Inode} (h : Grown path w w')
    (hi : w.files path = some i) : (w.content i).length ≤ (w'.content i).length :=
  (h.grows i hi).length_le

theorem evolves_grown {w w' : World}
    (h : (semantics agent (GrowsOnly path)).Evolves w w') : Grown path w w' := by
  refine Semantics.Evolves.related (fun w => .refl w) (fun _ _ _ h₁ h₂ => h₁.trans h₂) ?_ h
  rintro w w' (hgrows | ⟨op, r, hperform⟩)
  · exact ⟨hgrows.file, hgrows.grows⟩
  · obtain ⟨hfiles, hcontent, _⟩ := perform_frame hperform
    exact ⟨by rw [hfiles], fun i _ => by rw [hcontent]⟩

/-- Calls of the tailers for one log, one after the other, while the log only grows. -/
abbrev GrowingCalls (agent : Agent) (path : Path) (init : World)
    (calls : List (CompletedCall path)) (w : World) : Prop :=
  Calls (semantics agent (GrowsOnly path)) (fun c : CallOn path => c.1.body) init calls w

/-- What holds of a log with stored statistics: the calls `later` than the
first have copied it from `first` to the read position. -/
structure Tracked (path : Path) (later : List (CompletedCall path)) (w : World)
    (i : Inode) (first : Nat) (readStat : ReadStat) : Prop where
  file : w.files path = some i
  stored : w.readStats path = some readStat
  copied : later.flatMap (fun call => copiedBytes call.trace) =
    limitReader (w.content i) first readStat.readPosition
  first_le : first ≤ readStat.readPosition
  size_le : readStat.fileSize ≤ readStat.readPosition
  position_le : readStat.readPosition ≤ (w.content i).length

theorem Tracked.grown {later : List (CompletedCall path)} {w w' : World} {i : Inode}
    {first : Nat} {readStat : ReadStat} (h : Tracked path later w i first readStat)
    (hgrown : Grown path w w') (hstat : w'.readStats path = w.readStats path) :
    Tracked path later w' i first readStat where
  file := hgrown.file.trans h.file
  stored := hstat.trans h.stored
  copied := by rw [limitReader_grown (hgrown.grows i h.file) first h.position_le, h.copied]
  first_le := h.first_le
  size_le := h.size_le
  position_le := h.position_le.trans (hgrown.length_le h.file)

/-- A copy out of a tracked log starts where the last one ended and goes to
the end of the log, which is at least where `Stat` saw it. -/
theorem Tracked.copy {later : List (CompletedCall path)} {w now seen : World} {i : Inode}
    {first size : Nat} {readStat readStat' : ReadStat} {copy : Copy} {trace : TailTrace}
    (h : Tracked path later w i first readStat) (hfaultless : ∀ e ∈ trace, ¬ Failed e)
    (hcopy : CopyOf (semantics agent (GrowsOnly path)) path w trace now seen size readStat'
      copy) :
    copy.bytes = limitReader (now.content i) readStat.readPosition
        (copy.src.offset + copy.bytes.length) ∧
      copy.src.offset = readStat.readPosition ∧
      size ≤ copy.src.offset + copy.bytes.length ∧
      copy.src.offset + copy.bytes.length ≤ (now.content i).length := by
  have hstat : readStat' = readStat := by
    have heq := hcopy.stat.symm.trans h.stored
    cases heq
    rfl
  subst hstat
  have hbefore : Grown path w copy.before :=
    evolves_grown (hcopy.saw.reached.trans hcopy.later)
  have hinode : copy.src.inode = i := by
    obtain ⟨opened, hopened, hfile⟩ := hcopy.opened
    have hsame := (evolves_grown hopened).file
    rw [hfile, h.file] at hsame
    exact Option.some.inj hsame
  obtain ⟨j, hj, hsize⟩ := hcopy.saw.file
  have hseen := evolves_grown hcopy.saw.reached
  have hj' : j = i := by
    have hsame := hseen.file
    rw [hj, h.file] at hsame
    exact Option.some.inj hsame
  subst hj'
  have hle : readStat'.readPosition ≤ size := by
    rw [hsize]
    exact h.position_le.trans (hseen.length_le h.file)
  have hoffset : copy.src.offset = readStat'.readPosition :=
    hcopy.offset.eq_readPosition (h.size_le.trans hle) hfaultless
  have hlater := (evolves_grown hcopy.later).length_le hj
  have hbytes : copy.bytes = (copy.before.content j).drop readStat'.readPosition := by
    rw [hcopy.bytes, World.unread, hinode, hoffset]
  have hend : copy.src.offset + copy.bytes.length = (copy.before.content j).length := by
    rw [hbytes, List.length_drop, hoffset]
    omega
  have hnow := evolves_grown hcopy.onward
  have hfile : copy.before.files path = some j := hbefore.file.trans h.file
  refine ⟨?_, hoffset, by omega, ?_⟩
  · rw [hend, limitReader_grown (hnow.grows j hfile) _ (Nat.le_refl _), limitReader,
      List.take_length, hbytes]
  · rw [hend]
    exact hnow.length_le hfile

/-- The state between two calls: the log is new, or tracked since the first
call saw it. -/
inductive Between (path : Path) : List (CompletedCall path) → World → Prop
  | new {w} : w.readStats path = none → Between path [] w
  | tracked {first later w i size readStat} : statSizes first.trace = [size] →
      Tracked path later w i size readStat → Between path (first :: later) w

/-- During a call without an I/O error the stored position stays within the
log. -/
theorem Between.position_le {calls : List (CompletedCall path)} {w w' : World}
    (hbetween : Between path calls w) (c : CallOn path) {trace : TailTrace}
    {p' : TailProg (Except CaptureError Result)}
    (hsteps : Steps (semantics agent (GrowsOnly path)) c.1.body w trace p' w')
    (hfaultless : ∀ e ∈ trace, ¬ Failed e) {readStat : ReadStat}
    (hstat : w'.readStats path = some readStat) :
    ∃ i, w'.files path = some i ∧ readStat.readPosition ≤ (w'.content i).length := by
  obtain ⟨c, rfl⟩ := c
  have hunchanged (hsame : w'.readStats c.filePath = w.readStats c.filePath) :
      ∃ i, w'.files c.filePath = some i ∧
        readStat.readPosition ≤ (w'.content i).length := by
    cases hbetween with
    | new hnew =>
      rw [hsame, hnew] at hstat
      cases hstat
    | @tracked first later _ i size readStat' _ htracked =>
      have hnow := htracked.grown (evolves_grown hsteps.evolves) hsame
      have heq := hnow.stored.symm.trans hstat
      cases heq
      exact ⟨i, hnow.file, hnow.position_le⟩
  rcases c.contract (keepsStat_growsOnly _) hsteps with
    ⟨_, _, hsame, _⟩ | ⟨seen, size, hsaw, honward, _, _, hnew, hstored, _⟩ |
    ⟨seen, size, readStat', copy, hcopy, hsame, _⟩
      | ⟨seen, size, readStat', copy, hcopy, hstored, _⟩
  · exact hunchanged hsame
  · obtain ⟨i, hi, hsize⟩ := hsaw.file
    have hgrown := evolves_grown honward
    rw [hstored] at hstat
    cases hstat
    refine ⟨i, hgrown.file.trans hi, ?_⟩
    rw [hsize]
    exact hgrown.length_le hi
  · exact hunchanged (hsame.trans hcopy.stat.symm)
  · cases hbetween with
    | new hnew =>
      have hnone := hcopy.stat
      rw [hnew] at hnone
      cases hnone
    | @tracked first later _ i size' readStat'' _ htracked =>
      rw [hstored] at hstat
      cases hstat
      have hend := (htracked.copy hfaultless hcopy).2.2.2
      exact ⟨i, (evolves_grown hsteps.evolves).file.trans htracked.file, hend⟩

theorem Between.call {calls : List (CompletedCall path)} {w w' : World}
    (hbetween : Between path calls w) (c : CallOn path) {trace : TailTrace}
    {a : Except CaptureError Result}
    (hsteps : Steps (semantics agent (GrowsOnly path)) c.1.body w trace (.done a) w')
    (hfaultless : ∀ e ∈ trace, ¬ Failed e) :
    Between path (calls ++ [⟨c, w, trace, a, w'⟩]) w' := by
  obtain ⟨c, rfl⟩ := c
  rcases c.contract (keepsStat_growsOnly _) hsteps with
    ⟨_, _, hsame, hresult⟩ | ⟨seen, size, hsaw, honward, _, _, hnew, hstored, _⟩ |
    ⟨_, _, _, _, _, _, hrunning⟩ | ⟨seen, size, readStat', copy, hcopy, hstored, _⟩
  · obtain ⟨_, e, he, hfail⟩ := hresult a rfl
    exact absurd hfail (hfaultless e he)
  · cases hbetween with
    | tracked _ htracked =>
      have hsome := htracked.stored
      rw [hnew] at hsome
      cases hsome
    | new _ =>
      obtain ⟨i, hi, hsize⟩ := hsaw.file
      have hgrown := evolves_grown honward
      refine .tracked (i := i) hsaw.sizes
        { file := hgrown.file.trans hi
          stored := hstored
          copied := ?_
          first_le := Nat.le_refl _
          size_le := Nat.le_refl _
          position_le := ?_ }
      · simp [limitReader]
      · rw [hsize]
        exact hgrown.length_le hi
  · exact absurd rfl (hrunning a)
  · cases hbetween with
    | new hnew =>
      have hsome := hcopy.stat
      rw [hnew] at hsome
      cases hsome
    | @tracked first later _ i size' readStat htracked' htracked =>
      obtain ⟨hbytes, hoffset, hsize, hend⟩ := htracked.copy hfaultless hcopy
      have hgrown := evolves_grown hsteps.evolves
      rw [List.cons_append]
      refine .tracked (i := i) htracked'
        { file := hgrown.file.trans htracked.file
          stored := hstored
          copied := ?_
          first_le := ?_
          size_le := hsize
          position_le := hend }
      · have hmid : readStat.readPosition ≤ copy.src.offset + copy.bytes.length := by omega
        rw [List.flatMap_append, htracked.copied,
          ← limitReader_grown (hgrown.grows i htracked.file) _ htracked.position_le,
          limitReader_split _ htracked.first_le hmid, ← hbytes]
        simp [copiedBytes, hcopy.copies]
      · have hfirst := htracked.first_le
        simp only
        omega

theorem GrowingCalls.between {init w : World} {calls : List (CompletedCall path)}
    (hnew : init.readStats path = none) (hcalls : GrowingCalls agent path init calls w) :
    (∀ call ∈ calls, ∀ e ∈ call.trace, ¬ Failed e) → Between path calls w := by
  refine Calls.invariant (fun calls w => (∀ call ∈ calls, ∀ e ∈ call.trace, ¬ Failed e) →
    Between path calls w) ?_ ?_ hcalls
  · intro w hstar _
    have hwait : Steps (semantics agent (GrowsOnly path)) (pure () : TailProg Unit) init []
        (pure ()) w := .rest hstar
    exact .new ((readStats_of_unstored (by simp) (keepsStat_growsOnly path) hwait).trans hnew)
  · intro calls w c trace a w' hidle hsteps hfaultless
    apply Between.call (hidle ?_) c hsteps
    · exact fun e he => hfaultless ⟨c, w, trace, a, w'⟩ (by simp) e he
    · exact fun call hcall => hfaultless call (by simp [hcall])

/-- On a log that only grows, with no I/O error: the calls after the first
have copied exactly the bytes from the size the first call saw to the stored
read position, in order, and at every moment of a further call the stored
position is within the log. -/
theorem tail_gapless (init : World) (hnew : init.readStats path = none)
    (calls : List (CompletedCall path)) (w : World)
    (hcalls : GrowingCalls agent path init calls w)
    (hfaultless : ∀ call ∈ calls, ∀ e ∈ call.trace, ¬ Failed e) :
    (∀ first later, calls = first :: later → ∃ i size readStat,
      w.files path = some i ∧ statSizes first.trace = [size] ∧
      w.readStats path = some readStat ∧ size ≤ readStat.readPosition ∧
      readStat.readPosition ≤ (w.content i).length ∧
      later.flatMap (fun call => copiedBytes call.trace) =
        limitReader (w.content i) size readStat.readPosition) ∧
    (∀ (c : CallOn path) trace p' w' readStat,
      Steps (semantics agent (GrowsOnly path)) c.1.body w trace p' w' →
      (∀ e ∈ trace, ¬ Failed e) → w'.readStats path = some readStat →
      ∃ i, w'.files path = some i ∧ readStat.readPosition ≤ (w'.content i).length) := by
  have hbetween := hcalls.between hnew hfaultless
  constructor
  · rintro first later rfl
    cases hbetween with
    | @tracked _ _ _ i size readStat hsize htracked =>
      exact ⟨i, size, readStat, htracked.file, hsize, htracked.stored, htracked.first_le,
        htracked.position_le, htracked.copied⟩
  · intro c trace p' w' readStat hsteps hfault hstat
    exact hbetween.position_le c hsteps hfault hstat

theorem grow_sound (path : Path) (bytes : Bytes) (agent : Agent) :
    (grow bytes).Sound (semantics agent (GrowsOnly path)) :=
  fun _ => ⟨rfl, rfl, fun _ _ => List.prefix_append _ _⟩

/-- Two calls; the log grows between the `Stat` and the copy of the second. -/
def growingScript : List (CallOn "app.log" × List TailMove) :=
  [(appLogCall, succeed accepted 4),
   (appLogCall, succeed accepted 1 ++ grow [98] :: succeed accepted 9)]

theorem growingScript_sound : ∀ entry ∈ growingScript, ∀ m ∈ entry.2,
    m.Sound (semantics uploader (GrowsOnly "app.log")) := by
  intro entry hentry m hm
  simp only [growingScript, List.mem_cons, List.not_mem_nil, or_false] at hentry
  rcases hentry with rfl | rfl
  · exact succeed_sound _ _ _ m hm
  · rcases List.mem_append.mp hm with hm | hm
    · exact succeed_sound _ _ _ m hm
    · rcases List.mem_cons.mp hm with rfl | hm
      · exact grow_sound _ _ _
      · exact succeed_sound _ _ _ m hm

theorem growingScript_calls : ∃ calls w,
    GrowingCalls uploader "app.log" freshLog calls w ∧
      (∀ call ∈ calls, ∀ e ∈ call.trace, ¬ Failed e) ∧
      calls.map (fun call => copiedBytes call.trace) = [[], [98]] := by
  refine exists_calls growingScript_sound ⟨_, rfl, ?_⟩
  decide

theorem tail_gapless_two_calls : ∃ calls w i readStat,
    GrowingCalls uploader "app.log" freshLog calls w ∧
      calls.map (fun call => copiedBytes call.trace) = [[], [98]] ∧
      w.files "app.log" = some i ∧ w.readStats "app.log" = some readStat ∧
      readStat.readPosition ≤ (w.content i).length := by
  obtain ⟨calls, w, hcalls, hfaultless, hcopied⟩ := growingScript_calls
  obtain ⟨hbetween, _⟩ := tail_gapless freshLog rfl calls w hcalls hfaultless
  cases calls with
  | nil => cases hcopied
  | cons first later =>
    obtain ⟨i, _, readStat, hfile, _, hstat, _, hle, _⟩ := hbetween first later rfl
    exact ⟨_, w, i, readStat, hcalls, hcopied, hfile, hstat, hle⟩

def callFailed : Except CaptureError Result → Bool
  | .error _ => true
  | .ok result => !result.ok

/-- The bytes from the old read position on are still to be read. -/
def Retained (path : Path) (w w' : World) : Prop :=
  ∀ readStat, w.readStats path = some readStat → ∃ readStat',
    w'.readStats path = some readStat' ∧ readStat'.readPosition ≤ readStat.readPosition

/-- A failed call that copied, if it got so far, from a log with bytes past
the stored position leaves them to a later call exactly when it is not the
flush or the upload of the copied bytes that failed. -/
private theorem Call.retained_iff (c : Call) {w w' : World} {trace : TailTrace}
    {a : Except CaptureError Result} {readStat : ReadStat}
    (hsteps : Steps (semantics agent (GrowsOnly c.filePath)) c.body w trace (.done a) w')
    (hstat : w.readStats c.filePath = some readStat)
    (hbytes : ∀ copy ∈ copies trace,
      readStat.readPosition < (copy.before.content copy.src.inode).length)
    (hfailed : callFailed a = true) :
    Retained c.filePath w w' ↔ ∀ e ∈ trace, ¬ DeliveryFailed e := by
  rcases c.contract (keepsStat_growsOnly _) hsteps with
    ⟨_, hdelivered, hsame, _⟩ | ⟨_, _, _, _, _, _, hnew, _, _⟩ |
    ⟨_, _, _, _, _, _, hrunning⟩ | ⟨seen, size, readStat', copy, hcopy, hstored, hresult⟩
  · constructor
    · exact fun _ => hdelivered
    · intro _ stat hstat'
      exact ⟨stat, hsame.trans hstat', Nat.le_refl _⟩
  · rw [hnew] at hstat
    cases hstat
  · exact absurd rfl (hrunning a)
  · have hfail : ∃ e ∈ trace, DeliveryFailed e := by
      rcases hresult a rfl with ⟨_, _, hfail⟩ | ⟨msg, ok, rfl, hfail⟩
      · exact hfail
      · exact hfail (by simpa [callFailed] using hfailed)
    -- the copy went to the end of the log, past every byte that was new
    have hend : readStat.readPosition < copy.src.offset + copy.bytes.length := by
      have hlonger := hbytes copy (by rw [hcopy.copies]; exact List.mem_cons_self)
      rw [hcopy.bytes, World.unread, List.length_drop]
      omega
    constructor
    · intro hretained
      obtain ⟨stat, hstat', hle⟩ := hretained readStat hstat
      rw [hstored] at hstat'
      cases hstat'
      simp only at hle
      omega
    · intro hdelivered
      obtain ⟨e, he, hfail⟩ := hfail
      exact absurd hfail (hdelivered e he)

/-- In every history of calls on a log that only grows, whatever fails in it:
a failed call that had new bytes to copy leaves them at or after the stored
position exactly when neither the flush nor the upload of its copy failed. -/
theorem retained_iff_delivery_not_failed (init w : World) (calls : List (CompletedCall path))
    (hcalls : GrowingCalls agent path init calls w) :
    ∀ call ∈ calls, ∀ readStat, call.start.readStats path = some readStat →
      (∀ copy ∈ copies call.trace,
        readStat.readPosition < (copy.before.content copy.src.inode).length) →
      callFailed call.result = true →
      (Retained path call.start call.finish ↔ ∀ e ∈ call.trace, ¬ DeliveryFailed e) := by
  intro call hcall readStat hstat hbytes hfailed
  have hsteps := hcalls.steps hcall
  obtain ⟨⟨c, rfl⟩, start, trace, result, finish⟩ := call
  exact c.retained_iff hsteps hstat hbytes hfailed

/-- Two calls on a log that grows after the first, with the answers the second
one gets. -/
def secondCallScript (answers : List TailMove) : List (CallOn "app.log" × List TailMove) :=
  [(appLogCall, succeed accepted 4 ++ [grow [98]]),
   (appLogCall, answers)]

theorem secondCallScript_sound {answers : List TailMove}
    (hanswers : ∀ m ∈ answers, m.Sound (semantics uploader (GrowsOnly "app.log"))) :
    ∀ entry ∈ secondCallScript answers, ∀ m ∈ entry.2,
      m.Sound (semantics uploader (GrowsOnly "app.log")) := by
  intro entry hentry m hm
  simp only [secondCallScript, List.mem_cons, List.not_mem_nil, or_false] at hentry
  rcases hentry with rfl | rfl
  · rcases List.mem_append.mp hm with hm | hm
    · exact succeed_sound _ _ _ m hm
    · rw [List.mem_singleton.mp hm]
      exact grow_sound _ _ _
  · exact hanswers m hm

/-- The server refuses the upload of a second call: the byte it copied lies
before the position it leaves. -/
theorem refused_upload_not_retained : ∃ calls w, ∃ call ∈ calls, ∃ readStat,
    GrowingCalls uploader "app.log" freshLog calls w ∧ uploader.post.onlyCapture = false ∧
      call.start.readStats "app.log" = some readStat ∧
      (∀ copy ∈ copies call.trace,
        readStat.readPosition < (copy.before.content copy.src.inode).length) ∧
      callFailed call.result = true ∧ ¬ Retained "app.log" call.start call.finish := by
  have hhistory : ∃ calls w, GrowingCalls uploader "app.log" freshLog calls w ∧
      ∃ first call, calls = [first, call] ∧
        call.start.readStats "app.log" = some ⟨"app.log", 1, 1⟩ ∧
        (∀ copy ∈ copies call.trace, 1 < (copy.before.content copy.src.inode).length) ∧
        (∃ dt file, call.result = .ok
          ⟨(postData uploader.post uploader.endpoint dt file refused).1,
            (postData uploader.post uploader.endpoint dt file refused).2⟩) ∧
        call.finish.readStats "app.log" = some ⟨"app.log", 2, 2⟩ := by
    refine exists_calls (secondCallScript_sound (succeed_sound refused 10 _)) ⟨_, rfl, ?_⟩
    exact ⟨_, _, rfl, by decide, by decide, ⟨_, _, rfl⟩, by decide⟩
  obtain ⟨_, w, hcalls, first, call, rfl, hstat, hbytes, ⟨dt, file, hresult⟩, hstat'⟩ := hhistory
  refine ⟨_, w, call, by simp, _, hcalls, rfl, hstat, hbytes, ?_, ?_⟩
  · rw [hresult]
    simp only [callFailed, refused_not_ok, Bool.not_false]
  · intro hretained
    obtain ⟨readStat', hnow, hle⟩ := hretained _ hstat
    rw [hstat'] at hnow
    cases hnow
    exact absurd hle (by decide)

def cannotCreate : TailMove := .answer fun op w =>
  match op with
  | .create _ => some (.error "no space left on device", w)
  | _ => none

theorem cannotCreate_sound (interfere : World → World → Prop) :
    cannotCreate.Sound (semantics uploader interfere) := by
  intro op w r w' h
  cases op with
  | create name =>
    cases h
    rfl
  | _ => cases h

theorem retained_when_create_fails : ∃ calls w, ∃ call ∈ calls,
    GrowingCalls uploader "app.log" freshLog calls w ∧ callFailed call.result = true ∧
      call.start.content 0 = [97, 98] ∧ Retained "app.log" call.start call.finish := by
  have hsound : ∀ m ∈ succeed accepted 5 ++ [cannotCreate],
      m.Sound (semantics uploader (GrowsOnly "app.log")) := by
    intro m hm
    rcases List.mem_append.mp hm with hm | hm
    · exact succeed_sound _ _ _ m hm
    · rw [List.mem_singleton.mp hm]
      exact cannotCreate_sound _
  have hhistory : ∃ calls w, GrowingCalls uploader "app.log" freshLog calls w ∧
      ∃ first call, calls = [first, call] ∧ callFailed call.result = true ∧
        call.start.readStats "app.log" = some ⟨"app.log", 1, 1⟩ ∧
        call.start.content 0 = [97, 98] ∧
        (∀ copy ∈ copies call.trace, 1 < (copy.before.content copy.src.inode).length) ∧
        ∀ e ∈ call.trace, ¬ DeliveryFailed e := by
    refine exists_calls (secondCallScript_sound hsound) ⟨_, rfl, ?_⟩
    exact ⟨_, _, rfl, by decide, by decide, by decide, by decide, by decide⟩
  obtain ⟨_, w, hcalls, first, call, rfl, hfailed, hstat, hcontent, hbytes, hdelivered⟩ := hhistory
  refine ⟨_, w, call, by simp, hcalls, hfailed, hcontent, ?_⟩
  exact (retained_iff_delivery_not_failed freshLog w _ hcalls call (by simp) _ hstat hbytes
    hfailed).mpr hdelivered

end YcAgent.Capture.Tail
