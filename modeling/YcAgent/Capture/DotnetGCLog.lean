import YcAgent.Go.Stream

/-!
The .NET GC log reader: a header line, then one JSON event a line, possibly
followed by a line that the collector is still writing. `OpenDotnetGCLog`
checks the header; `CopyAfter` finds the first event at or after an instant by
a binary search over byte offsets and copies from there to the last newline.

The file is passed to each function as its bytes at the time of the reads,
`fileSize` is what `Stat` returned before them. gjson and `time.Parse` are
parameters.
-/

namespace YcAgent.Capture

open Lib.Lines Go

/-- An instant, in nanoseconds. `Before` is the strict order. -/
abbrev Time := Int

structure GCLogParsers where
  /-- `gjson.GetBytes(line, path)`: `none` when the result does not exist, else
  its `Str`. -/
  get : Bytes → String → Option String
  /-- `time.Parse(time.RFC3339Nano, value)`. -/
  parseTime : String → Except String Time

inductive GCLogError where
  | eof
  | fileIsEmpty
  | notTheHeader
  | missingStopTime (offset : Nat)
  | unparseableStopTime (offset : Nat) (value cause : String)
  | writeFailed
  | windowNegative
  | indexOutOfRange
  deriving DecidableEq, Repr

structure DotnetGCLog where
  header : Bytes
  eventsOffset : Nat

def readHeader (p : GCLogParsers) (file : Bytes) : Except GCLogError (Bytes × Nat) :=
  let (line, _, _) := readBytes file
  if line.length = 0 then .error .fileIsEmpty
  else
    match p.get line "Platform" with
    | none => .error .notTheHeader
    | some platform =>
      if platform ≠ ".Net" then .error .notTheHeader
      else .ok (line, line.length)

def openDotnetGCLog (p : GCLogParsers) (file : Bytes) : Except GCLogError DotnetGCLog := do
  let (header, eventsOffset) ← readHeader p file
  return { header, eventsOffset }

/-- The last step of `readLineAtOrAfter`: the reader stands at the start of a
line, and a line without its newline counts as not there. -/
def readLineHere (lineStartOffset : Nat) (r : Bytes) : Except GCLogError (Nat × Bytes) :=
  let (line, eof, _) := readBytes r
  if eof then .error .eof else .ok (lineStartOffset, line)

def readLineAtOrAfter (f : Bytes) (offset fileSize : Nat) :
    Except GCLogError (Nat × Bytes) :=
  if fileSize ≤ offset then .error .eof
  else
    let seekTo := if 0 < offset then offset - 1 else offset
    let r := limitReader f seekTo fileSize
    if 0 < offset then
      let (skipped, eof, rest) := readBytes r
      match skipped with
      | [] => .error .indexOutOfRange
      | first :: _ =>
        if first = newline then readLineHere offset rest
        else if eof then .error .eof
        else readLineHere (seekTo + skipped.length) rest
    else readLineHere 0 r

def parseStopTime (p : GCLogParsers) (line : Bytes) (offset : Nat) : Except GCLogError Time :=
  match p.get line "StopTime" with
  | none => .error (.missingStopTime offset)
  | some value =>
    match p.parseTime value with
    | .error cause => .error (.unparseableStopTime offset value cause)
    | .ok time => .ok time

def chunkSize : Nat := 64 * 1024

theorem chunkSize_pos : 0 < chunkSize := by simp [chunkSize]

/-- The loop of `findLastCompleteLineEnd`: chunks of at most `size` bytes are
read backwards from `chunkEnd` until one of them holds a newline. -/
def scanChunks (size : Nat) (hsize : 0 < size) (f : Bytes)
    (startOffset chunkEnd : Nat) : Nat :=
  if startOffset < chunkEnd then
    let chunkStart :=
      if chunkEnd - size < startOffset then startOffset else chunkEnd - size
    match lastIndexByte newline (readAt f chunkStart (chunkEnd - chunkStart)) with
    | some idx => chunkStart + idx + 1
    | none => scanChunks size hsize f startOffset chunkStart
  else startOffset
termination_by chunkEnd
decreasing_by split <;> omega

def findLastCompleteLineEnd (f : Bytes) (startOffset fileSize : Nat) : Nat :=
  if fileSize ≤ startOffset then startOffset
  else scanChunks chunkSize chunkSize_pos f startOffset fileSize

def copyFromOffset (w : Writer) (f : Bytes) (startOffset fileSize : Nat) :
    Writer × Option GCLogError :=
  let endOffset := findLastCompleteLineEnd f startOffset fileSize
  if endOffset ≤ startOffset then (w, none)
  else
    let (w, ok) := w.write (limitReader f startOffset endOffset)
    (w, if ok then none else some .writeFailed)

def DotnetGCLog.copy (d : DotnetGCLog) (f : Bytes) (fileSize : Nat) (w : Writer) :
    Writer × Option GCLogError :=
  let (w, ok) := w.write d.header
  if ok then copyFromOffset w f d.eventsOffset fileSize else (w, some .writeFailed)

theorem readLineHere_eq (pos : Nat) (r : Bytes) :
    readLineHere pos r =
      match takeLine newline r with
      | none => .error .eof
      | some found => .ok (pos, found.1.text) := by
  unfold readLineHere readBytes
  cases takeLine newline r <;> rfl

/-- Past offset 0, the byte before the offset decides where the reader goes
on: the rest of the line that holds it is skipped. -/
theorem readLineAtOrAfter_succ (f : Bytes) (k fileSize : Nat)
    (hinside : k + 1 < fileSize) (hsize : fileSize ≤ f.length) :
    readLineAtOrAfter f (k + 1) fileSize =
      match takeLine newline ((f.take fileSize).drop k) with
      | none => .error .eof
      | some (skipped, rest) => readLineHere (k + skipped.text.length) rest := by
  have hlength : 0 < ((f.take fileSize).drop k).length := by
    simp only [List.length_drop, List.length_take]
    omega
  simp only [readLineAtOrAfter, Nat.not_le.mpr hinside, Nat.succ_pos, ↓reduceIte,
    Nat.add_sub_cancel, limitReader, readBytes]
  cases htake : takeLine newline ((f.take fileSize).drop k) with
  | none =>
    cases hdrop : (f.take fileSize).drop k with
    | nil => simp [hdrop] at hlength
    | cons first more =>
      have hfirst : first ≠ newline := by
        intro heq
        rw [hdrop, heq] at htake
        simp [takeLine] at htake
      simp [hfirst]
  | some found =>
    obtain ⟨⟨body, hfree⟩, rest⟩ := found
    cases body with
    | nil => simp [Line.text]
    | cons first body =>
      have hfirst : first ≠ newline := fun heq => hfree (by simp [heq])
      simp [Line.text, hfirst]

/-- The line read for an offset is the first complete line of the readable
part of the file that starts there or later. -/
theorem readLineAtOrAfter_eq (f : Bytes) (offset fileSize : Nat)
    (hsize : fileSize ≤ f.length) :
    readLineAtOrAfter f offset fileSize =
      match firstLineFrom offset 0 (splitLines newline (f.take fileSize)).1 with
      | none => .error .eof
      | some (start, line) => .ok (start, line.text) := by
  obtain ⟨lines, tail, hsplit, htail⟩ : ∃ (lines : List (Line newline)) (tail : Bytes),
      f.take fileSize = joinLines lines ++ tail ∧ newline ∉ tail :=
    ⟨_, _, (splitLines_join newline _).symm, splitLines_tail_free newline _⟩
  rw [hsplit, splitLines_unique lines tail htail]
  have hlength : (joinLines lines ++ tail).length = fileSize := by
    rw [← hsplit, List.length_take]
    omega
  rcases Nat.lt_or_ge offset fileSize with hinside | hpast
  · cases offset with
    | zero =>
      have hread : readLineAtOrAfter f 0 fileSize =
          readLineHere 0 (joinLines lines ++ tail) := by
        simp [readLineAtOrAfter, Nat.not_le.mpr hinside, limitReader, hsplit]
      rw [hread, readLineHere_eq, takeLine_join lines tail htail,
        firstLineFrom_at_start (Nat.le_refl 0)]
      cases lines <;> rfl
    | succ k =>
      have hprobe := takeLine_drop_join lines tail htail k
      rw [readLineAtOrAfter_succ f k fileSize hinside hsize, hsplit]
      cases htake : takeLine newline ((joinLines lines ++ tail).drop k) with
      | none =>
        simp only [htake] at hprobe
        simp [hprobe]
      | some found =>
        obtain ⟨skipped, rest⟩ := found
        simp only [htake] at hprobe
        simp only [readLineHere_eq, hprobe]
        cases takeLine newline rest <;> rfl
  · have hread : readLineAtOrAfter f offset fileSize = .error .eof := by
      simp [readLineAtOrAfter, hpast]
    rw [hread]
    cases hfound : firstLineFrom offset 0 lines with
    | none => rfl
    | some found =>
      obtain ⟨start, line⟩ := found
      obtain ⟨before, after, rfl, hstart, hle, _⟩ := firstLineFrom_eq_some hfound
      simp only [joinLines_append, joinLines_cons, List.length_append,
        Line.text_length] at hlength
      omega

/-- A probe never goes back and never returns an empty line, so every round
of the search shrinks the interval. -/
theorem readLineAtOrAfter_ok {f : Bytes} {offset fileSize start : Nat} {line : Bytes}
    (h : readLineAtOrAfter f offset fileSize = .ok (start, line)) :
    offset ≤ start ∧ 0 < line.length := by
  have hhere (pos : Nat) (r : Bytes) (hr : readLineHere pos r = .ok (start, line)) :
      start = pos ∧ 0 < line.length := by
    rw [readLineHere_eq] at hr
    cases htake : takeLine newline r with
    | none => simp [htake] at hr
    | some found =>
      simp only [htake, Except.ok.injEq, Prod.mk.injEq] at hr
      exact ⟨hr.1.symm, by rw [← hr.2]; simp⟩
  unfold readLineAtOrAfter at h
  split at h
  · cases h
  · simp only at h
    split at h
    · next hpos =>
        split at h
        · cases h
        · next first more hskipped =>
            split at h
            · obtain ⟨rfl, hlen⟩ := hhere _ _ h
              exact ⟨Nat.le_refl _, hlen⟩
            · split at h
              · cases h
              · obtain ⟨rfl, hlen⟩ := hhere _ _ h
                simp only [hskipped, List.length_cons]
                exact ⟨by omega, hlen⟩
    · next hzero =>
        obtain ⟨rfl, hlen⟩ := hhere _ _ h
        exact ⟨by omega, hlen⟩

theorem scanChunks_eq (size : Nat) (hsize : 0 < size) (f : Bytes)
    (startOffset chunkEnd : Nat) (hstart : startOffset ≤ chunkEnd)
    (hend : chunkEnd ≤ f.length) :
    scanChunks size hsize f startOffset chunkEnd =
      startOffset + completeLength newline (limitReader f startOffset chunkEnd) := by
  induction chunkEnd using Nat.strong_induction_on with
  | h chunkEnd ih =>
    rw [scanChunks]
    split
    · next hlt =>
        obtain ⟨chunkStart, hchunk⟩ : ∃ chunkStart, chunkStart =
            if chunkEnd - size < startOffset then startOffset else chunkEnd - size :=
          ⟨_, rfl⟩
        have hbounds : startOffset ≤ chunkStart ∧ chunkStart < chunkEnd := by
          rw [hchunk]
          split <;> omega
        obtain ⟨hfrom, hto⟩ := hbounds
        simp only [← hchunk]
        rw [readAt_eq_limitReader, limitReader_split f hfrom (Nat.le_of_lt hto)]
        cases hlast : lastIndexByte newline (limitReader f chunkStart chunkEnd) with
        | none =>
          have hfree := lastIndexByte_eq_none.mp hlast
          rw [completeLength_append_of_free _ hfree]
          exact ih chunkStart hto hfrom (by omega)
        | some idx =>
          have hmem : newline ∈ limitReader f chunkStart chunkEnd := by
            by_contra hnot
            rw [lastIndexByte_eq_none.mpr hnot] at hlast
            cases hlast
          have hidx := lastIndexByte_newline hlast
          have hlength := limitReader_length f startOffset chunkStart (by omega)
          rw [completeLength_append_of_mem _ hmem]
          simp only
          omega
    · next hge =>
        have heq : chunkEnd = startOffset := by omega
        simp [heq, limitReader, completeLength, splitLines]

/-- The backward scan returns the end of the last complete line of the range,
or its start when the range holds no newline, whatever the chunk size. -/
theorem findLastCompleteLineEnd_eq (f : Bytes) (startOffset fileSize : Nat)
    (hsize : fileSize ≤ f.length) :
    findLastCompleteLineEnd f startOffset fileSize =
      startOffset + completeLength newline (limitReader f startOffset fileSize) := by
  unfold findLastCompleteLineEnd
  split
  · next hpast =>
      have hnil : limitReader f startOffset fileSize = [] := by
        unfold limitReader
        apply List.drop_eq_nil_of_le
        simp only [List.length_take]
        omega
      simp [hnil, completeLength, splitLines]
  · exact scanChunks_eq chunkSize chunkSize_pos f startOffset fileSize (by omega) hsize

/-- Up to the end of its last complete line a window has its complete lines. -/
theorem limitReader_completeLength (f : Bytes) (startOffset : Nat) {fileSize : Nat}
    (hsize : fileSize ≤ f.length) :
    limitReader f startOffset
        (startOffset + completeLength newline (limitReader f startOffset fileSize)) =
      joinLines (splitLines newline (limitReader f startOffset fileSize)).1 := by
  have hlength := limitReader_length f startOffset fileSize hsize
  have hle := completeLength_le newline (limitReader f startOffset fileSize)
  rw [hlength] at hle
  rw [limitReader_take f hle, take_completeLength]

/-- Copying from an offset writes the complete lines that follow it, if there
are any. -/
theorem copyFromOffset_eq (w : Writer) (f : Bytes) (startOffset fileSize : Nat)
    (hsize : fileSize ≤ f.length) :
    copyFromOffset w f startOffset fileSize =
      let lines := joinLines (splitLines newline (limitReader f startOffset fileSize)).1
      if lines = [] then (w, none)
      else ((w.write lines).1, if (w.write lines).2 then none else some .writeFailed) := by
  have hend := findLastCompleteLineEnd_eq f startOffset fileSize hsize
  have hlines := limitReader_completeLength f startOffset hsize
  generalize limitReader f startOffset fileSize = range at hend hlines ⊢
  have hempty : joinLines (splitLines newline range).1 = [] ↔
      startOffset + completeLength newline range ≤ startOffset := by
    rw [← List.length_eq_zero_iff, ← completeLength]
    omega
  simp only [copyFromOffset, hend, hempty]
  split
  · rfl
  · rw [hlines]

theorem copyFromOffset_buffer (out f : Bytes) (startOffset fileSize : Nat)
    (hsize : fileSize ≤ f.length) :
    copyFromOffset ⟨out, none⟩ f startOffset fileSize =
      (⟨out ++ joinLines (splitLines newline (limitReader f startOffset fileSize)).1,
        none⟩, none) := by
  rw [copyFromOffset_eq _ _ _ _ hsize]
  simp only [Writer.write_unbounded, ↓reduceIte, ite_eq_right_iff]
  intro hnone
  rw [hnone, List.append_nil]

theorem copyFromOffset_ok {w w' : Writer} {f : Bytes} {startOffset fileSize : Nat}
    (hsize : fileSize ≤ f.length) (h : copyFromOffset w f startOffset fileSize = (w', none)) :
    w'.out = w.out ++ joinLines (splitLines newline (limitReader f startOffset fileSize)).1 := by
  rw [copyFromOffset_eq _ _ _ _ hsize] at h
  simp only at h
  split at h
  · next hnone =>
      cases h
      rw [hnone, List.append_nil]
  · obtain ⟨hwritten, hok⟩ := Prod.mk.inj h
    apply Writer.write_ok
    rw [← hwritten]
    refine Prod.ext rfl ?_
    by_contra hfailed
    simp [hfailed] at hok

/-- The binary search of `findOffsetAfter` between two byte offsets. `hi` is
set to the probed offset itself and `lo` to the end of the line found there,
which may lie past `hi`. -/
def searchOffset (p : GCLogParsers) (f : Bytes) (fileSize : Nat) (after : Time)
    (lo hi : Nat) : Except GCLogError Nat :=
  if lo < hi then
    let mid := (lo + hi) / 2
    match _hread : readLineAtOrAfter f mid fileSize with
    | .error .eof => searchOffset p f fileSize after lo mid
    | .error lineErr => .error lineErr
    | .ok (lineStartOffset, line) =>
      match parseStopTime p line lineStartOffset with
      | .error parseErr => .error parseErr
      | .ok lineTime =>
        if ¬ lineTime < after then searchOffset p f fileSize after lo mid
        else searchOffset p f fileSize after (lineStartOffset + line.length) hi
  else .ok lo
termination_by hi - lo
decreasing_by
  · omega
  · omega
  · have hline := readLineAtOrAfter_ok _hread
    omega

theorem searchOffset_done (p : GCLogParsers) (f : Bytes) (fileSize : Nat) (after : Time)
    {lo hi : Nat} (h : hi ≤ lo) : searchOffset p f fileSize after lo hi = .ok lo := by
  rw [searchOffset, if_neg (Nat.not_lt.mpr h)]

theorem searchOffset_eof (p : GCLogParsers) (f : Bytes) (fileSize : Nat) (after : Time)
    {lo hi : Nat} (h : lo < hi)
    (hread : readLineAtOrAfter f ((lo + hi) / 2) fileSize = .error .eof) :
    searchOffset p f fileSize after lo hi =
      searchOffset p f fileSize after lo ((lo + hi) / 2) := by
  rw [searchOffset, if_pos h]
  simp only
  split
  · rfl
  · next hne heq =>
      rw [hread] at heq
      cases heq
      exact absurd rfl hne
  · next heq =>
      rw [hread] at heq
      cases heq

theorem searchOffset_line (p : GCLogParsers) (f : Bytes) (fileSize : Nat) (after : Time)
    {lo hi start : Nat} {line : Bytes} {time : Time} (h : lo < hi)
    (hread : readLineAtOrAfter f ((lo + hi) / 2) fileSize = .ok (start, line))
    (hparse : parseStopTime p line start = .ok time) :
    searchOffset p f fileSize after lo hi =
      if time < after then searchOffset p f fileSize after (start + line.length) hi
      else searchOffset p f fileSize after lo ((lo + hi) / 2) := by
  rw [searchOffset, if_pos h]
  simp only
  split
  · next heq =>
      rw [hread] at heq
      cases heq
  · next heq =>
      rw [hread] at heq
      cases heq
  · next start' line' heq =>
      rw [hread] at heq
      cases heq
      simp only [hparse, ite_not]

theorem searchOffset_bad (p : GCLogParsers) (f : Bytes) (fileSize : Nat) (after : Time)
    {lo hi start : Nat} {line : Bytes} {err : GCLogError} (h : lo < hi)
    (hread : readLineAtOrAfter f ((lo + hi) / 2) fileSize = .ok (start, line))
    (hparse : parseStopTime p line start = .error err) :
    searchOffset p f fileSize after lo hi = .error err := by
  rw [searchOffset, if_pos h]
  simp only
  split
  · next heq =>
      rw [hread] at heq
      cases heq
  · next heq =>
      rw [hread] at heq
      cases heq
  · next start' line' heq =>
      rw [hread] at heq
      cases heq
      simp only [hparse]

def DotnetGCLog.findOffsetAfter (d : DotnetGCLog) (p : GCLogParsers) (f : Bytes) (fileSize : Nat)
    (after : Time) : Except GCLogError (Nat × Nat) := do
  let startOffset ← searchOffset p f fileSize after d.eventsOffset fileSize
  return (fileSize, startOffset)

def DotnetGCLog.copyAfter (d : DotnetGCLog) (p : GCLogParsers) (f : Bytes) (fileSize : Nat)
    (after : Time) (w : Writer) : Writer × Option GCLogError :=
  match d.findOffsetAfter p f fileSize after with
  | .error err => (w, some err)
  | .ok (fileSize, startOffset) =>
    let (w, ok) := w.write d.header
    if ok then copyFromOffset w f startOffset fileSize else (w, some .writeFailed)

def DotnetGCLog.copyLast (d : DotnetGCLog) (p : GCLogParsers) (f : Bytes) (fileSize : Nat)
    (now : Time) (span : Int) (w : Writer) : Writer × Option GCLogError :=
  if span < 0 then (w, some .windowNegative)
  else d.copyAfter p f fileSize (now - span) w

end YcAgent.Capture
