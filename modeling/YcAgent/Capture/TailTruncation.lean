import YcAgent.Capture.TailContract

/-!
Truncation and rotation. The log may be appended to, truncated, rewritten or
replaced between any two operations of a call. A call starts over when `Stat`
sees less than the size stored by the call before it; that size was taken
before the copy of that call, and the copy may have gone further.
-/

namespace YcAgent.Capture.Tail

open Go Lib.Program

/-- Anything may happen to the log and to the rest of the world, except to the
log's own read position. -/
def AnyChange (path : Path) (w w' : World) : Prop :=
  w'.readStats path = w.readStats path

theorem keepsStat_anyChange (path : Path) : KeepsStat path (AnyChange path) :=
  fun _ _ h => h

/-- The call made one copy, from offset 0, of the whole content the opened log
had then. -/
def ReadsWhole (trace : TailTrace) : Prop :=
  ∃ copy, copies trace = [copy] ∧ copy.src.offset = 0 ∧
    copy.bytes = copy.before.content copy.src.inode

variable {agent : Agent} {path : Path}

/-- A call whose `Stat` sees less than the stored read position, and in which
no operation fails, reads the whole log exactly when `Stat` also sees less
than the stored size. -/
private theorem Call.readsWhole_iff (c : Call) {w w' : World} {trace : TailTrace}
    {a : Except CaptureError Result} {readStat : ReadStat} {size : Nat}
    (hsteps : Steps (semantics agent (AnyChange c.filePath)) c.body w trace (.done a) w')
    (hfaultless : ∀ e ∈ trace, ¬ Failed e)
    (hstat : w.readStats c.filePath = some readStat) (hsize : statSizes trace = [size])
    (hshrunk : size < readStat.readPosition) :
    ReadsWhole trace ↔ size < readStat.fileSize := by
  rcases c.contract (keepsStat_anyChange _) hsteps with
    ⟨_, _, _, hresult⟩ | ⟨_, _, _, _, _, _, hnew, _, _⟩ |
    ⟨_, _, _, _, _, _, hrunning⟩ | ⟨seen, size', readStat', copy, hcopy, _, _⟩
  · obtain ⟨_, e, he, hfail⟩ := hresult a rfl
    exact absurd hfail (hfaultless e he)
  · rw [hnew] at hstat
    cases hstat
  · exact absurd rfl (hrunning a)
  · have hsize' := hcopy.saw.sizes
    have hstat' := hcopy.stat
    rw [hsize] at hsize'
    rw [hstat] at hstat'
    cases hsize'
    cases hstat'
    constructor
    · rintro ⟨copy', hcopies, hzero, _⟩
      rw [hcopy.copies] at hcopies
      cases hcopies
      by_contra hge
      have hresumed := hcopy.offset.eq_readPosition (Nat.not_lt.mp hge) hfaultless
      omega
    · intro hlt
      have hzero := hcopy.offset.eq_zero hlt
      refine ⟨copy, hcopy.copies, hzero, ?_⟩
      rw [hcopy.bytes, World.unread, hzero, List.drop_zero]

/-- In every history of appends, truncations and replacements of the log: a
call without an I/O error whose `Stat` sees less than the position stored
before it reads the whole log exactly when `Stat` also sees less than the
stored size. -/
theorem readsWhole_iff_smaller (init w : World) (calls : List (CompletedCall path))
    (hcalls : Calls (semantics agent (AnyChange path)) (fun c : CallOn path => c.1.body) init
      calls w) :
    ∀ call ∈ calls, (∀ e ∈ call.trace, ¬ Failed e) → ∀ readStat size,
      call.start.readStats path = some readStat → statSizes call.trace = [size] →
      size < readStat.readPosition → (ReadsWhole call.trace ↔ size < readStat.fileSize) := by
  intro call hcall hfaultless readStat size hstat hsize hshrunk
  have hsteps := hcalls.steps hcall
  obtain ⟨⟨c, rfl⟩, start, trace, result, finish⟩ := call
  exact c.readsWhole_iff hsteps hfaultless hstat hsize hshrunk

theorem env_sound (path : Path) (agent : Agent) {f : World → World}
    (hf : ∀ w, (f w).readStats = w.readStats) :
    (Move.env f : TailMove).Sound (semantics agent (AnyChange path)) :=
  fun w => congrFun (hf w) path

/-- Three calls. The log grows between the `Stat` and the copy of the second,
which so reads past the size it stores, and is then rewritten with `bytes`. -/
def rewrittenScript (bytes : Bytes) : List (CallOn "app.log" × List TailMove) :=
  [(appLogCall, succeed accepted 4),
   (appLogCall,
     succeed accepted 1 ++ grow [98] :: (succeed accepted 9 ++ [newDirectory, rewrite bytes])),
   (appLogCall, succeed accepted (if bytes.isEmpty then 9 else 10))]

theorem rewrittenScript_sound (bytes : Bytes) : ∀ entry ∈ rewrittenScript bytes, ∀ m ∈ entry.2,
    m.Sound (semantics uploader (AnyChange "app.log")) := by
  intro entry hentry m hm
  simp only [rewrittenScript, List.mem_cons, List.not_mem_nil, or_false] at hentry
  rcases hentry with rfl | rfl | rfl
  · exact succeed_sound _ _ _ m hm
  · simp only [List.mem_append, List.mem_cons, List.not_mem_nil, or_false] at hm
    rcases hm with hm | rfl | hm | rfl | rfl
    · exact succeed_sound _ _ _ m hm
    · exact env_sound _ _ fun _ => rfl
    · exact succeed_sound _ _ _ m hm
    · exact env_sound _ _ fun _ => rfl
    · exact env_sound _ _ fun _ => rfl
  · exact succeed_sound _ _ _ m hm

/-- The log is rewritten with as many bytes as the second `Stat` saw: the
third call copies nothing of the new content. -/
theorem rewritten_log_skipped : ∃ calls w, ∃ call ∈ calls, ∃ readStat size,
    Calls (semantics uploader (AnyChange "app.log")) (fun c : CallOn "app.log" => c.1.body)
        freshLog calls w ∧
      (∀ e ∈ call.trace, ¬ Failed e) ∧ call.start.readStats "app.log" = some readStat ∧
      statSizes call.trace = [size] ∧ size < readStat.readPosition ∧
      call.start.content 0 = [99] ∧ copiedBytes call.trace = [] ∧ ¬ ReadsWhole call.trace := by
  have hhistory : ∃ calls w, Calls (semantics uploader (AnyChange "app.log"))
        (fun c : CallOn "app.log" => c.1.body) freshLog calls w ∧
      ∃ first second call, calls = [first, second, call] ∧ (∀ e ∈ call.trace, ¬ Failed e) ∧
        call.start.readStats "app.log" = some ⟨"app.log", 1, 2⟩ ∧
        statSizes call.trace = [1] ∧ call.start.content 0 = [99] ∧
        copiedBytes call.trace = [] ∧
        (copies call.trace).map (fun copy => copy.src.offset) = [2] := by
    refine exists_calls (rewrittenScript_sound [99]) ⟨_, rfl, ?_⟩
    exact ⟨_, _, _, rfl, by decide, by decide, by decide, by decide, by decide, by decide⟩
  obtain ⟨_, w, hcalls, first, second, call, rfl, hfaultless, hstat, hsize, hcontent, hnone,
    hoffset⟩ := hhistory
  refine ⟨_, w, call, by simp, _, 1, hcalls, hfaultless, hstat, hsize, by decide, hcontent,
    hnone, ?_⟩
  rintro ⟨copy, hcopies, hzero, _⟩
  rw [hcopies] at hoffset
  simp [hzero] at hoffset

/-- The log is emptied: the third call reads it from the start. -/
theorem truncated_log_read : ∃ calls w, ∃ call ∈ calls,
    Calls (semantics uploader (AnyChange "app.log")) (fun c : CallOn "app.log" => c.1.body)
        freshLog calls w ∧ call.start.content 0 = [] ∧ ReadsWhole call.trace := by
  have hhistory : ∃ calls w, Calls (semantics uploader (AnyChange "app.log"))
        (fun c : CallOn "app.log" => c.1.body) freshLog calls w ∧
      ∃ first second call, calls = [first, second, call] ∧ (∀ e ∈ call.trace, ¬ Failed e) ∧
        call.start.readStats "app.log" = some ⟨"app.log", 1, 2⟩ ∧
        statSizes call.trace = [0] ∧ call.start.content 0 = [] := by
    refine exists_calls (rewrittenScript_sound []) ⟨_, rfl, ?_⟩
    exact ⟨_, _, _, rfl, by decide, by decide, by decide, by decide⟩
  obtain ⟨_, w, hcalls, first, second, call, rfl, hfaultless, hstat, hsize, hcontent⟩ := hhistory
  refine ⟨_, w, call, by simp, hcalls, hcontent, ?_⟩
  exact (readsWhole_iff_smaller freshLog w _ hcalls call (by simp) hfaultless _ 0 hstat hsize
    (by decide)).mpr (by decide)

end YcAgent.Capture.Tail
