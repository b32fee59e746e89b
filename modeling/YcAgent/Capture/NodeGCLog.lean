import YcAgent.Capture.DotnetGCLog

/-!
The incremental split of a Node.js process's stdout into V8 GC-trace lines and
everything else. The file is seen twice by a read: its size when it is
`Stat`ed, and its bytes when they are read, which may be more by then. A read
that finds less than its start offset begins again at the start.
-/

namespace YcAgent.Capture

open Lib.Lines Go

def nodeGCScavengeToken : Bytes := utf8 ": Scavenge "
def nodeGCMarkToken : Bytes := utf8 ": Mark-"

def isNodeGCLine (line : Bytes) : Bool :=
  bytesContains line nodeGCScavengeToken || bytesContains line nodeGCMarkToken

structure NodeGCSplit where
  gcOut : Writer
  otherOut : Writer
  gcLines : Nat
  otherLines : Nat

/-- One round of the loop of `SplitGCLog`: route what was read, if anything.
The flag is false when the write failed. -/
def NodeGCSplit.route (split : NodeGCSplit) (line : Bytes) : NodeGCSplit × Bool :=
  if line.length = 0 then (split, true)
  else if isNodeGCLine line then
    let (gcOut, ok) := split.gcOut.write line
    if ok then ({ split with gcOut, gcLines := split.gcLines + 1 }, true)
    else ({ split with gcOut }, false)
  else
    let (otherOut, ok) := split.otherOut.write line
    if ok then ({ split with otherOut, otherLines := split.otherLines + 1 }, true)
    else ({ split with otherOut }, false)

theorem readBytes_length_lt {r : Bytes} (h : ¬ (readBytes r).2.1 = true) :
    (readBytes r).2.2.length < r.length := by
  unfold readBytes at h ⊢
  obtain ⟨lines, tail, hsplit, htail⟩ : ∃ (lines : List (Line newline)) (tail : Bytes),
      r = joinLines lines ++ tail ∧ newline ∉ tail :=
    ⟨_, _, (splitLines_join newline r).symm, splitLines_tail_free newline r⟩
  rw [hsplit, takeLine_join lines tail htail] at h ⊢
  cases lines with
  | nil => simp at h
  | cons line rest =>
    simp only [joinLines_cons, List.length_append, Line.text_length]
    omega

def splitGCLog (src : Bytes) (split : NodeGCSplit) : NodeGCSplit × Bool :=
  let (split, ok) := split.route (readBytes src).1
  if ok then
    if _h : (readBytes src).2.1 = true then (split, true)
    else splitGCLog (readBytes src).2.2 split
  else (split, false)
termination_by src.length
decreasing_by exact readBytes_length_lt _h

inductive NodeGCError where
  | openFailed (cause : String)
  | writeFailed
  deriving DecidableEq, Repr

structure NodeGCRead where
  newOffset : Nat
  split : NodeGCSplit
  err : Option NodeGCError

/-- `SplitNodeGCFrom` on a file of which `Stat` sees `size` bytes and of which
`content` is there when it is read. -/
def splitNodeGCFrom (opened : Except String (Nat × Bytes)) (startOffset : Nat)
    (gcOut otherOut : Writer) : NodeGCRead :=
  let empty : NodeGCSplit := ⟨gcOut, otherOut, 0, 0⟩
  match opened with
  | .error cause => ⟨startOffset, empty, some (.openFailed cause)⟩
  | .ok (size, content) =>
    let startOffset := if size < startOffset then 0 else startOffset
    let endOffset := findLastCompleteLineEnd content startOffset size
    if endOffset ≤ startOffset then ⟨startOffset, empty, none⟩
    else
      let (split, ok) := splitGCLog (limitReader content startOffset endOffset) empty
      if ok then ⟨endOffset, split, none⟩
      else ⟨startOffset, split, some .writeFailed⟩

/-- The complete GC-trace lines of a text, in order. -/
def gcPart (text : Bytes) : Bytes :=
  joinLines ((splitLines newline text).1.filter fun line => isNodeGCLine line.text)

/-- The complete lines of a text that are no GC-trace lines, in order. -/
def otherPart (text : Bytes) : Bytes :=
  joinLines ((splitLines newline text).1.filter fun line => !isNodeGCLine line.text)

section Split

variable (gc other : Bytes) (n m : Nat)

private def buffers : NodeGCSplit := ⟨⟨gc, none⟩, ⟨other, none⟩, n, m⟩

private theorem splitGCLog_nil : splitGCLog [] (buffers gc other n m) =
    (buffers gc other n m, true) := by
  rw [splitGCLog]
  simp [readBytes, takeLine, NodeGCSplit.route]

private theorem splitGCLog_line (line : Line newline) (rest : Bytes) :
    splitGCLog (line.text ++ rest) (buffers gc other n m) =
      if isNodeGCLine line.text then
        splitGCLog rest (buffers (gc ++ line.text) other (n + 1) m)
      else splitGCLog rest (buffers gc (other ++ line.text) n (m + 1)) := by
  have hread : readBytes (line.text ++ rest) = (line.text, false, rest) := by
    simp [readBytes, takeLine_text]
  have hlength : line.text.length ≠ 0 := by simp
  rw [splitGCLog]
  simp only [hread, NodeGCSplit.route, hlength, ↓reduceIte, buffers, Writer.write_unbounded]
  split <;> simp

theorem splitGCLog_join (lines : List (Line newline)) :
    ∃ n' m', splitGCLog (joinLines lines) (buffers gc other n m) =
      (buffers (gc ++ joinLines (lines.filter fun line => isNodeGCLine line.text))
        (other ++ joinLines (lines.filter fun line => !isNodeGCLine line.text)) n' m', true) := by
  induction lines generalizing gc other n m with
  | nil => exact ⟨n, m, by simpa using splitGCLog_nil gc other n m⟩
  | cons line rest ih =>
    rw [joinLines_cons, splitGCLog_line]
    cases hline : isNodeGCLine line.text with
    | true =>
      obtain ⟨n', m', hrest⟩ := ih (gc ++ line.text) other (n + 1) m
      refine ⟨n', m', ?_⟩
      simp [hrest, hline]
    | false =>
      obtain ⟨n', m', hrest⟩ := ih gc (other ++ line.text) n (m + 1)
      refine ⟨n', m', ?_⟩
      simp [hrest, hline]

end Split

/-- A read into buffers delivers the complete lines between its start and the
size it saw, and ends after the last of them. -/
theorem splitNodeGCFrom_buffer (content : Bytes) (startOffset size : Nat)
    (hstart : startOffset ≤ size) (hsize : size ≤ content.length) :
    ∃ n m, splitNodeGCFrom (.ok (size, content)) startOffset .buffer .buffer =
      ⟨startOffset + completeLength newline (limitReader content startOffset size),
        ⟨⟨gcPart (limitReader content startOffset size), none⟩,
          ⟨otherPart (limitReader content startOffset size), none⟩, n, m⟩, none⟩ := by
  have hend := findLastCompleteLineEnd_eq content startOffset size hsize
  have hlines := limitReader_completeLength content startOffset hsize
  generalize limitReader content startOffset size = range at hend hlines ⊢
  obtain ⟨n, m, hsplit⟩ := splitGCLog_join [] [] 0 0 (splitLines newline range).1
  simp only [buffers, List.nil_append] at hsplit
  simp only [splitNodeGCFrom, Nat.not_lt.mpr hstart, ↓reduceIte, hend, Writer.buffer]
  split
  · next hnone =>
      have hempty : (splitLines newline range).1 = [] := by
        cases hcases : (splitLines newline range).1 with
        | nil => rfl
        | cons line rest =>
          have hpos : 0 < completeLength newline range := by
            rw [completeLength, hcases, joinLines_cons, List.length_append,
              Line.text_length]
            omega
          omega
      refine ⟨0, 0, ?_⟩
      have hzero : completeLength newline range = 0 := by omega
      simp [gcPart, otherPart, hempty, hzero]
  · refine ⟨n, m, ?_⟩
    rw [hlines, hsplit]
    rfl

theorem gcPart_join (lines : List (Line newline)) :
    gcPart (joinLines lines) = joinLines (lines.filter fun line => isNodeGCLine line.text) := by
  have hsplit := splitLines_unique lines [] (by simp)
  rw [List.append_nil] at hsplit
  rw [gcPart, hsplit]

theorem otherPart_join (lines : List (Line newline)) :
    otherPart (joinLines lines) =
      joinLines (lines.filter fun line => !isNodeGCLine line.text) := by
  have hsplit := splitLines_unique lines [] (by simp)
  rw [List.append_nil] at hsplit
  rw [otherPart, hsplit]

/-- One read of a stdout file: what is there at its `Stat` and, a moment
later, when its bytes are read. -/
structure Glimpse where
  statted : Bytes
  read : Bytes
  grows : statted <+: read

/-- The file only grows from `before` over the moments of the reads to
`final`. -/
inductive Grows : Bytes → List Glimpse → Bytes → Prop
  | done {before final} : before <+: final → Grows before [] final
  | read {before final glimpse rest} : before <+: glimpse.statted →
      Grows glimpse.read rest final → Grows before (glimpse :: rest) final

theorem Grows.le {before final : Bytes} {glimpses : List Glimpse}
    (h : Grows before glimpses final) : before <+: final := by
  induction h with
  | done h => exact h
  | @read _ _ glimpse _ hstat _ ih => exact (hstat.trans glimpse.grows).trans ih

/-- The state kept across reads and the pieces delivered so far. -/
structure NodeGCFollow where
  offset : Nat
  gc : Bytes
  other : Bytes

/-- Successive reads, each starting at the offset the last one returned. -/
def follow (offset : Nat) : List Glimpse → NodeGCFollow
  | [] => ⟨offset, [], []⟩
  | glimpse :: rest =>
    let read := splitNodeGCFrom (.ok (glimpse.statted.length, glimpse.read)) offset
      .buffer .buffer
    let later := follow read.newOffset rest
    ⟨later.offset, read.split.gcOut.out ++ later.gc, read.split.otherOut.out ++ later.other⟩

/-- Successive reads of a growing file deliver consecutive complete lines. -/
theorem follow_lines {before final : Bytes} {glimpses : List Glimpse}
    (hgrows : Grows before glimpses final) (offset : Nat) (hoffset : offset ≤ before.length) :
    ∃ lines : List (Line newline),
      (follow offset glimpses).offset = offset + (joinLines lines).length ∧
      (follow offset glimpses).offset ≤ final.length ∧
      limitReader final offset (follow offset glimpses).offset = joinLines lines ∧
      (follow offset glimpses).gc = gcPart (joinLines lines) ∧
      (follow offset glimpses).other = otherPart (joinLines lines) := by
  induction hgrows generalizing offset with
  | @done before final hle =>
    refine ⟨[], rfl, hoffset.trans hle.length_le, ?_, rfl, rfl⟩
    simp [follow, limitReader]
  | @read before final glimpse rest hstat hrest ih =>
    have hsize := glimpse.grows.length_le
    have hstart := hoffset.trans hstat.length_le
    obtain ⟨n, m, hread⟩ := splitNodeGCFrom_buffer glimpse.read offset glimpse.statted.length
      hstart hsize
    have hlength := limitReader_length glimpse.read offset glimpse.statted.length hsize
    have htake (n : Nat) (hn : n ≤ glimpse.statted.length - offset) :=
      limitReader_take glimpse.read hn
    generalize limitReader glimpse.read offset glimpse.statted.length = range
      at hread hlength htake
    have hcomplete := completeLength_le newline range
    have hinside : offset + completeLength newline range ≤ glimpse.read.length := by omega
    obtain ⟨lines, hlast, hbound, hlines, hgc, hother⟩ := ih _ hinside
    have hfirst : limitReader final offset (offset + completeLength newline range) =
        joinLines (splitLines newline range).1 := by
      rw [limitReader_grown hrest.le _ hinside, htake _ (by omega), take_completeLength]
    refine ⟨(splitLines newline range).1 ++ lines, ?_, ?_, ?_, ?_, ?_⟩
    · have hlen : completeLength newline range =
          (joinLines (splitLines newline range).1).length := rfl
      simp only [follow, hread, hlast, joinLines_append, List.length_append]
      omega
    · simpa only [follow, hread] using hbound
    · have hmid : offset + completeLength newline range ≤
          (follow (offset + completeLength newline range) rest).offset := by omega
      simp only [follow, hread]
      rw [limitReader_split final (Nat.le_add_right _ _) hmid, hfirst, hlines,
        joinLines_append]
    · rw [gcPart_join, List.filter_append, joinLines_append]
      simp only [follow, hread, hgc, gcPart_join]
      rfl
    · rw [otherPart_join, List.filter_append, joinLines_append]
      simp only [follow, hread, hother, otherPart_join]
      rfl

/-- A window that ends with a newline ends one past a newline of the file. -/
theorem newline_before_stop {f body : Bytes} {start stop : Nat}
    (h : limitReader f start stop = body ++ [newline]) (hstart : start ≤ stop)
    (hstop : stop ≤ f.length) : f[stop - 1]? = some newline := by
  have hlength := limitReader_length f start stop hstop
  rw [h, List.length_append, List.length_singleton] at hlength
  have hindex : start + body.length = stop - 1 := by omega
  have hget : (limitReader f start stop)[body.length]? = some newline := by simp [h]
  rw [limitReader, List.getElem?_drop, hindex, List.getElem?_take_of_lt (by omega)] at hget
  exact hget

/-- For a stdout file that only grows, from any offset within it and over any
sequence of reads at any moments: the pieces delivered are the GC-trace lines
and the other lines between the first offset and the last, as one split of
that range delivers them, and the offset is where it started or one past a
newline. A read whose offset is past the end of the file starts over and
delivers every complete line of it. -/
theorem follow_eq_split (before final : Bytes) (glimpses : List Glimpse)
    (hgrows : Grows before glimpses final) (offset : Nat) (hoffset : offset ≤ before.length) :
    (let run := follow offset glimpses
     let range := limitReader final offset run.offset
     offset ≤ run.offset ∧ run.offset ≤ final.length ∧
      (run.offset = offset ∨ final[run.offset - 1]? = some newline) ∧
      run.gc = gcPart range ∧ run.other = otherPart range ∧ (splitLines newline range).2 = [] ∧
      ∃ n m, splitGCLog range ⟨.buffer, .buffer, 0, 0⟩ =
        (⟨⟨run.gc, none⟩, ⟨run.other, none⟩, n, m⟩, true)) ∧
    ∀ (content : Bytes) (size stored : Nat), size ≤ content.length → size < stored →
      ∃ n m, splitNodeGCFrom (.ok (size, content)) stored .buffer .buffer =
        ⟨completeLength newline (content.take size),
          ⟨⟨gcPart (content.take size), none⟩, ⟨otherPart (content.take size), none⟩, n, m⟩,
          none⟩ := by
  constructor
  · obtain ⟨lines, hlast, hbound, hlines, hgc, hother⟩ := follow_lines hgrows offset hoffset
    obtain ⟨n, m, hsplit⟩ := splitGCLog_join [] [] 0 0 lines
    have htail : (splitLines newline (joinLines lines)).2 = [] := by
      have hunique := splitLines_unique lines [] (by simp)
      rw [List.append_nil] at hunique
      rw [hunique]
    simp only [hlines, hgc, hother, htail, true_and]
    refine ⟨by omega, hbound, ?_, n, m, ?_⟩
    · by_cases hempty : joinLines lines = []
      · left
        rw [hlast, hempty]
        rfl
      · right
        obtain ⟨body, hbody⟩ := joinLines_getLast hempty
        exact newline_before_stop (hlines.trans hbody) (by omega) hbound
    · rw [gcPart_join, otherPart_join]
      exact hsplit
  · intro content size stored hsize hpast
    obtain ⟨n, m, hread⟩ := splitNodeGCFrom_buffer content 0 size (Nat.zero_le _) hsize
    refine ⟨n, m, ?_⟩
    rw [limitReader, List.drop_zero, Nat.zero_add] at hread
    rw [← hread]
    simp [splitNodeGCFrom, hpast]

/-- A GC-trace line and a line that is written in two halves, over two
reads. -/
def halfWritten : List Glimpse :=
  [⟨utf8 "1: Scavenge 2\nlis", utf8 "1: Scavenge 2\nlis", List.prefix_refl _⟩,
   ⟨utf8 "1: Scavenge 2\nlistening\n", utf8 "1: Scavenge 2\nlistening\n", List.prefix_refl _⟩]

theorem follow_halfWritten :
    (follow 0 halfWritten).gc = gcPart (limitReader (utf8 "1: Scavenge 2\nlistening\n") 0
        (follow 0 halfWritten).offset) ∧
      (follow 0 halfWritten).other = otherPart (limitReader (utf8 "1: Scavenge 2\nlistening\n") 0
        (follow 0 halfWritten).offset) := by
  have hgrows : Grows [] halfWritten (utf8 "1: Scavenge 2\nlistening\n") :=
    .read (List.nil_prefix) (.read ⟨utf8 "tening\n", by decide⟩ (.done (List.prefix_refl _)))
  obtain ⟨⟨_, _, _, hgc, hother, _⟩, _⟩ := follow_eq_split [] _ halfWritten hgrows 0 (Nat.zero_le _)
  exact ⟨hgc, hother⟩

end YcAgent.Capture
