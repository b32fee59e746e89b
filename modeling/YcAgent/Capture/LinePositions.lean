import YcAgent.Capture.DotnetGCLog

/-!
The two readers that the .NET and Node.js tailers share, by the positions of
the bytes they find. `readLineAtOrAfter` returns the first complete line that
starts at an offset or later; `findLastCompleteLineEnd` looks for the last
newline of a window in chunks read backwards, no byte twice.
-/

namespace YcAgent.Capture

open Lib.Lines Go

/-- A line of the file with its newline, within the first `fileSize` bytes. It
starts at 0 or just after a newline. -/
structure LineIn (f : Bytes) (fileSize start : Nat) (line : Bytes) : Prop where
  starts : start = 0 ∨ f[start - 1]? = some newline
  content : line <+: f.drop start
  inside : start + line.length ≤ fileSize
  terminated : ∃ body, newline ∉ body ∧ line = body ++ [newline]

theorem LineIn.split {f : Bytes} {fileSize start : Nat} {line : Bytes}
    (h : LineIn f fileSize start line) (hsize : fileSize ≤ f.length) :
    ∃ text : Line newline, text.text = line ∧ ∃ before after,
      (splitLines newline (f.take fileSize)).1 = before ++ text :: after ∧
        (joinLines before).length = start := by
  obtain ⟨body, hbody, rfl⟩ := h.terminated
  refine ⟨⟨body, hbody⟩, rfl, line_at_iff.2 ?_⟩
  obtain ⟨more, hmore⟩ := h.content
  have hinside := h.inside
  have hfront : (f.take start).length = start := List.length_take_of_le (by omega)
  refine ⟨f.take start, more.take (fileSize - (start + (body ++ [newline]).length)), ?_, hfront, ?_⟩
  · have hwhole : f = f.take start ++ (body ++ [newline]) ++ more := by
      rw [List.append_assoc, hmore, List.take_append_drop]
    have hlength : (f.take start ++ (body ++ [newline])).length ≤ fileSize := by
      rw [List.length_append, hfront]
      exact hinside
    conv_lhs =>
      rw [hwhole, List.take_append, List.take_of_length_le hlength, List.length_append, hfront]
    rfl
  · cases start with
    | zero => exact .inl rfl
    | succ k =>
      have hnewline : f[k]? = some newline := h.starts.resolve_left (Nat.succ_ne_zero k)
      refine .inr ⟨f.take k, ?_⟩
      rw [List.take_add_one, hnewline]
      rfl

theorem lineIn_of_split {f : Bytes} {fileSize : Nat} (hsize : fileSize ≤ f.length)
    {before after : List (Line newline)} {line : Line newline}
    (h : (splitLines newline (f.take fileSize)).1 = before ++ line :: after) :
    LineIn f fileSize (joinLines before).length line.text := by
  obtain ⟨front, back, hwhole, hlength, hfront⟩ := line_at_iff.1 ⟨before, after, h, rfl⟩
  have hf : f = front ++ (line.text ++ (back ++ f.drop fileSize)) := by
    conv_lhs => rw [← List.take_append_drop fileSize f, hwhole]
    simp only [List.append_assoc]
  have hsum := congrArg List.length hwhole
  rw [List.length_take_of_le hsize, List.length_append, List.length_append] at hsum
  rw [← hlength]
  refine ⟨?_, ?_, by omega, line.body, line.body_free, rfl⟩
  · rcases hfront with rfl | ⟨body, rfl⟩
    · exact .inl rfl
    · right
      rw [hf, List.length_append, List.length_singleton, Nat.add_sub_cancel, List.append_assoc,
        List.getElem?_append_right (Nat.le_refl _), Nat.sub_self]
      rfl
  · conv_rhs => rw [hf, List.drop_left]
    exact List.prefix_append _ _

/-- The first line of the file that starts at `offset` or later. -/
structure FirstLineFrom (f : Bytes) (offset fileSize start : Nat) (line : Bytes) : Prop where
  lineIn : LineIn f fileSize start line
  from_offset : offset ≤ start
  first : ∀ start' line', LineIn f fileSize start' line' → offset ≤ start' → start ≤ start'

section First

variable {f : Bytes} {offset fileSize : Nat}

private theorem firstLineFrom_found (hsize : fileSize ≤ f.length) {start : Nat}
    {line : Line newline}
    (hfound : firstLineFrom offset 0 (splitLines newline (f.take fileSize)).1 =
      some (start, line)) :
    FirstLineFrom f offset fileSize start line.text := by
  obtain ⟨before, after, hsplit, hstart, hoffset, hearly⟩ := firstLineFrom_eq_some hfound
  rw [Nat.zero_add] at hstart
  subst hstart
  refine ⟨lineIn_of_split hsize hsplit, hoffset, ?_⟩
  intro start' line' hline' hoffset'
  obtain ⟨text, -, before', after', hsplit', rfl⟩ := hline'.split hsize
  by_contra hlt
  rcases place_of_starts hsplit hsplit' (by omega) with ⟨rfl, -⟩ | ⟨between, hbetween⟩
  · exact hlt (Nat.le_refl _)
  · have hbefore := hearly before' text between hbetween
    omega

theorem FirstLineFrom.unique {start start' : Nat} {line line' : Bytes} (hsize : fileSize ≤ f.length)
    (h : FirstLineFrom f offset fileSize start line)
    (h' : FirstLineFrom f offset fileSize start' line') : start = start' ∧ line = line' := by
  have hstart : start = start' :=
    Nat.le_antisymm (h.first _ _ h'.lineIn h'.from_offset) (h'.first _ _ h.lineIn h.from_offset)
  subst hstart
  obtain ⟨text, rfl, before, after, hsplit, hbefore⟩ := h.lineIn.split hsize
  obtain ⟨text', rfl, before', after', hsplit', hbefore'⟩ := h'.lineIn.split hsize
  rcases place_of_starts hsplit hsplit' (by omega) with ⟨-, rfl⟩ | ⟨between, rfl⟩
  · exact ⟨rfl, rfl⟩
  · rw [joinLines_append, joinLines_cons, List.length_append, List.length_append,
      Line.text_length] at hbefore
    omega

/-- The line that is read is the first one at or after the offset, and the end
of the file is reported just in case there is none. -/
theorem readLineAtOrAfter_first (f : Bytes) (offset fileSize : Nat) (hsize : fileSize ≤ f.length) :
    (∀ start line, readLineAtOrAfter f offset fileSize = .ok (start, line) ↔
      FirstLineFrom f offset fileSize start line) ∧
    (readLineAtOrAfter f offset fileSize = .error .eof ↔
      ∀ start line, LineIn f fileSize start line → start < offset) := by
  rw [readLineAtOrAfter_eq f offset fileSize hsize]
  cases hfound : firstLineFrom offset 0 (splitLines newline (f.take fileSize)).1 with
  | some found =>
    obtain ⟨start, line⟩ := found
    have hfirst := firstLineFrom_found hsize hfound
    constructor
    · intro start' line'
      constructor
      · intro heq
        cases heq
        exact hfirst
      · intro hfirst'
        obtain ⟨rfl, rfl⟩ := hfirst.unique hsize hfirst'
        rfl
    · constructor
      · intro heq
        cases heq
      · intro hnone
        exact absurd (hnone _ _ hfirst.lineIn) (Nat.not_lt.2 hfirst.from_offset)
  | none =>
    have hnone : ∀ start line, LineIn f fileSize start line → start < offset := by
      intro start line hline
      obtain ⟨text, -, before, after, hsplit, rfl⟩ := hline.split hsize
      have hbefore := firstLineFrom_eq_none hfound before after text hsplit
      rwa [Nat.zero_add] at hbefore
    constructor
    · intro start line
      constructor
      · intro heq
        cases heq
      · intro hfirst
        exact absurd (hnone _ _ hfirst.lineIn) (Nat.not_lt.2 hfirst.from_offset)
    · exact ⟨fun _ => hnone, fun _ => rfl⟩

/-- An offset inside the first line gives the second one. -/
theorem second_line_read : FirstLineFrom [97, 10, 98, 10, 99] 1 5 2 [98, 10] :=
  ((readLineAtOrAfter_first [97, 10, 98, 10, 99] 1 5 (by decide)).1 2 [98, 10]).1 rfl

end First

/-- One past the last newline in `[startOffset, fileSize)`, or `startOffset` if
there is none. -/
inductive LastNewline (f : Bytes) (startOffset fileSize : Nat) : Nat → Prop
  | found {pos : Nat} : startOffset ≤ pos → pos < fileSize → f[pos]? = some newline →
      (∀ later, pos < later → later < fileSize → f[later]? ≠ some newline) →
      LastNewline f startOffset fileSize (pos + 1)
  | none : (∀ pos, startOffset ≤ pos → pos < fileSize → f[pos]? ≠ some newline) →
      LastNewline f startOffset fileSize startOffset

theorem getElem?_limitReader (f : Bytes) (start stop k : Nat) (hk : start + k < stop) :
    (limitReader f start stop)[k]? = f[start + k]? := by
  rw [limitReader, List.getElem?_drop, List.getElem?_take_of_lt hk]

theorem lastNewline_completeLength (f : Bytes) (startOffset fileSize : Nat)
    (hsize : fileSize ≤ f.length) :
    LastNewline f startOffset fileSize
      (startOffset + completeLength newline (limitReader f startOffset fileSize)) := by
  have hlength := limitReader_length f startOffset fileSize hsize
  rcases completeLength_cases newline (limitReader f startOffset fileSize) with
    ⟨hfree, hzero⟩ | ⟨front, back, hwindow, hback, hcomplete⟩
  · rw [hzero, Nat.add_zero]
    apply LastNewline.none
    intro pos hstart hpos hnewline
    have hat := getElem?_limitReader f startOffset fileSize (pos - startOffset) (by omega)
    rw [Nat.add_sub_of_le hstart, hnewline] at hat
    exact hfree (List.mem_of_getElem? hat)
  · rw [hwindow, List.length_append, List.length_cons] at hlength
    rw [hcomplete, ← Nat.add_assoc]
    apply LastNewline.found (Nat.le_add_right _ _) (by omega)
    · rw [← getElem?_limitReader f startOffset fileSize front.length (by omega), hwindow,
        List.getElem?_append_right (Nat.le_refl _), Nat.sub_self]
      rfl
    · intro later hlater hinside hnewline
      obtain ⟨k, rfl⟩ : ∃ k, later = startOffset + (front.length + 1 + k) :=
        ⟨later - (startOffset + front.length + 1), by omega⟩
      rw [← getElem?_limitReader f startOffset fileSize _ hinside, hwindow,
        List.getElem?_append_right (by omega), Nat.add_assoc, Nat.add_sub_cancel_left,
        Nat.add_comm 1 k, List.getElem?_cons_succ] at hnewline
      exact hback (List.mem_of_getElem? hnewline)

structure ChunkRead where
  start : Nat
  size : Nat

def ChunkRead.positions (read : ChunkRead) : List Nat := List.range' read.start read.size

/-- `scanChunks` with the calls of `ReadAt` that it makes, the last one first. -/
def scanChunksReads (size : Nat) (hsize : 0 < size) (f : Bytes) (startOffset chunkEnd : Nat)
    (reads : List ChunkRead) : Nat × List ChunkRead :=
  if startOffset < chunkEnd then
    let chunkStart :=
      if chunkEnd - size < startOffset then startOffset else chunkEnd - size
    let reads := ⟨chunkStart, chunkEnd - chunkStart⟩ :: reads
    match lastIndexByte newline (readAt f chunkStart (chunkEnd - chunkStart)) with
    | some idx => (chunkStart + idx + 1, reads)
    | none => scanChunksReads size hsize f startOffset chunkStart reads
  else (startOffset, reads)
termination_by chunkEnd
decreasing_by split <;> omega

/-- `findLastCompleteLineEnd` with the calls of `ReadAt` that it makes. -/
def findLastCompleteLineEndReads (f : Bytes) (startOffset fileSize : Nat) : Nat × List ChunkRead :=
  if fileSize ≤ startOffset then (startOffset, [])
  else scanChunksReads chunkSize chunkSize_pos f startOffset fileSize []

/-- The bytes read so far, in the order of the file: all of those between the
chunk that comes next and the end. -/
def ReadBack (chunkEnd fileSize : Nat) (reads : List ChunkRead) : Prop :=
  reads.flatMap ChunkRead.positions = List.range' chunkEnd (fileSize - chunkEnd)

theorem scanChunksReads_spec (size : Nat) (hsize : 0 < size) (f : Bytes)
    {startOffset chunkEnd fileSize : Nat} {reads : List ChunkRead} (hstart : startOffset ≤ chunkEnd)
    (hend : chunkEnd ≤ fileSize) (hreads : ReadBack chunkEnd fileSize reads) :
    (scanChunksReads size hsize f startOffset chunkEnd reads).1 =
      scanChunks size hsize f startOffset chunkEnd ∧
    ∃ lowest, startOffset ≤ lowest ∧ lowest ≤ fileSize ∧
      ReadBack lowest fileSize (scanChunksReads size hsize f startOffset chunkEnd reads).2 := by
  induction chunkEnd using Nat.strongRecOn generalizing reads with
  | ind chunkEnd ih =>
    rw [scanChunksReads, scanChunks]
    split
    · next hlt =>
        obtain ⟨chunkStart, hchunk⟩ : ∃ chunkStart, chunkStart =
            if chunkEnd - size < startOffset then startOffset else chunkEnd - size :=
          ⟨_, rfl⟩
        have hbounds : startOffset ≤ chunkStart ∧ chunkStart < chunkEnd := by
          rw [hchunk]
          split <;> omega
        obtain ⟨hfrom, hto⟩ := hbounds
        have hmore : ReadBack chunkStart fileSize
            (⟨chunkStart, chunkEnd - chunkStart⟩ :: reads) := by
          rw [ReadBack, List.flatMap_cons, hreads, ChunkRead.positions]
          have hnext : chunkEnd = chunkStart + (chunkEnd - chunkStart) := by omega
          have hrest : fileSize - chunkStart =
              (chunkEnd - chunkStart) + (fileSize - chunkEnd) := by omega
          rw [hrest, ← List.range'_append_1, ← hnext]
        simp only [← hchunk]
        cases lastIndexByte newline (readAt f chunkStart (chunkEnd - chunkStart)) with
        | some idx => exact ⟨rfl, chunkStart, hfrom, by omega, hmore⟩
        | none => exact ih chunkStart hto hfrom (by omega) hmore
    · exact ⟨rfl, chunkEnd, hstart, hend, hreads⟩

/-- The scan ends at the last newline of the window wherever that is, and reads
bytes of the window only, each of them at most once. -/
theorem findLastCompleteLineEnd_last_newline (f : Bytes) (startOffset fileSize : Nat)
    (hsize : fileSize ≤ f.length) :
    LastNewline f startOffset fileSize (findLastCompleteLineEnd f startOffset fileSize) ∧
    ∃ reads, findLastCompleteLineEndReads f startOffset fileSize =
        (findLastCompleteLineEnd f startOffset fileSize, reads) ∧
      (reads.flatMap ChunkRead.positions).Nodup ∧
      ∀ pos ∈ reads.flatMap ChunkRead.positions, startOffset ≤ pos ∧ pos < fileSize := by
  constructor
  · rw [findLastCompleteLineEnd_eq f startOffset fileSize hsize]
    exact lastNewline_completeLength f startOffset fileSize hsize
  rw [findLastCompleteLineEndReads, findLastCompleteLineEnd]
  split
  · exact ⟨[], rfl, List.nodup_nil, by simp⟩
  · next hinside =>
      have hnone : ReadBack fileSize fileSize [] := by simp [ReadBack]
      obtain ⟨hresult, lowest, hlow, hhigh, hreads⟩ :=
        scanChunksReads_spec chunkSize chunkSize_pos f (Nat.le_of_not_le hinside)
          (Nat.le_refl fileSize) hnone
      refine ⟨_, Prod.ext hresult rfl, ?_, ?_⟩
      · rw [hreads]
        exact List.nodup_range'
      · intro pos hpos
        rw [hreads, List.mem_range'_1] at hpos
        omega

/-- A window that ends in an unfinished line. -/
theorem unfinished_tail_scanned :
    LastNewline [97, 10, 98, 10, 99] 1 5 (findLastCompleteLineEnd [97, 10, 98, 10, 99] 1 5) :=
  (findLastCompleteLineEnd_last_newline [97, 10, 98, 10, 99] 1 5 (by decide)).1

end YcAgent.Capture
