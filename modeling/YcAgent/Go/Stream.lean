import YcAgent.Lib.Lines

/-!
The pieces of Go's `io`, `bufio`, `bytes` and `os` packages through which the
captures read and write files. A file is the list of its bytes at the moment
of the call; a writer is what it has accepted so far, with an optional bound
on what it still accepts.
-/

namespace YcAgent.Go

open Lib.Lines

abbrev Bytes := List UInt8

def newline : UInt8 := 10

def utf8 (s : String) : Bytes := s.toUTF8.data.toList

/-- `bufio.Reader.ReadBytes('\n')` on a reader that still holds `r`: the data,
whether the read ended at end of file instead of a newline, and what is left. -/
def readBytes (r : Bytes) : Bytes × Bool × Bytes :=
  match takeLine newline r with
  | some (line, rest) => (line.text, false, rest)
  | none => (r, true, [])

theorem readBytes_line (line : Line newline) (rest : Bytes) :
    readBytes (line.text ++ rest) = (line.text, false, rest) := by
  simp [readBytes, takeLine_text]

theorem readBytes_of_free {s : Bytes} (h : newline ∉ s) : readBytes s = (s, true, []) := by
  simp [readBytes, takeLine_eq_none h]

theorem readBytes_append {front : Bytes} (hfront : newline ∉ front) (s : Bytes) :
    readBytes (front ++ s) = (front ++ (readBytes s).1, (readBytes s).2) := by
  simp only [readBytes, takeLine_append hfront]
  cases takeLine newline s with
  | none => rfl
  | some found => simp

/-- `io.LimitReader(f, stop-start)` after a seek to `start`. -/
def limitReader (f : Bytes) (start stop : Nat) : Bytes := (f.take stop).drop start

/-- `f.ReadAt(buf[:size], offset)`: the bytes it puts into the buffer. -/
def readAt (f : Bytes) (offset size : Nat) : Bytes := (f.drop offset).take size

def lastIndexByte (b : UInt8) : Bytes → Option Nat
  | [] => none
  | a :: rest =>
    match lastIndexByte b rest with
    | some i => some (i + 1)
    | none => if a = b then some 0 else none

def bytesContains : Bytes → Bytes → Bool
  | [], sub => sub.isEmpty
  | a :: rest, sub => sub.isPrefixOf (a :: rest) || bytesContains rest sub

/-- The lines of a `bufio.Scanner` as they stand in the data. What follows the
last newline is a line too, if it is not empty. -/
def rawLines (s : Bytes) : List Bytes :=
  (splitLines newline s).1.map Line.body ++
    if (splitLines newline s).2.isEmpty then [] else [(splitLines newline s).2]

def maxScanTokenSize : Nat := 64 * 1024

def dropCR (line : Bytes) : Bytes := if line.getLast? = some 13 then line.dropLast else line

/-- What `Text` returns after each successful `Scan`. The first line that leaves
no room for its newline in the buffer ends the scan, as the end of the data does;
only `Err` tells the two apart. -/
def scanLines (s : Bytes) : List Bytes :=
  ((rawLines s).takeWhile fun line => line.length < maxScanTokenSize).map dropCR

structure Writer where
  out : Bytes
  room : Option Nat

/-- An in-memory buffer or a file on a disk that does not fill up. -/
def Writer.buffer : Writer := ⟨[], none⟩

/-- `w.Write(p)`; the flag is false when the writer reported an error. -/
def Writer.write (w : Writer) (p : Bytes) : Writer × Bool :=
  match w.room with
  | none => ({ w with out := w.out ++ p }, true)
  | some n =>
    if p.length ≤ n then (⟨w.out ++ p, some (n - p.length)⟩, true)
    else (⟨w.out ++ p.take n, some 0⟩, false)

@[simp] theorem Writer.write_unbounded (out p : Bytes) :
    (Writer.mk out none).write p = (Writer.mk (out ++ p) none, true) := rfl

theorem Writer.write_ok {w w' : Writer} {p : Bytes} (h : w.write p = (w', true)) :
    w'.out = w.out ++ p := by
  unfold Writer.write at h
  split at h
  · cases h
    rfl
  · split at h
    · cases h
      rfl
    · cases h

theorem scanLines_joinLines (lines : List (Line newline)) :
    scanLines (joinLines lines) =
      (lines.takeWhile fun line => line.body.length < maxScanTokenSize).map
        fun line => dropCR line.body := by
  have hsplit : splitLines newline (joinLines lines) = (lines, []) := by
    have h := splitLines_unique lines [] List.not_mem_nil
    rwa [List.append_nil] at h
  simp [scanLines, rawLines, hsplit, List.takeWhile_map, Function.comp_def]

theorem readAt_eq_limitReader (f : Bytes) (start stop : Nat) :
    readAt f start (stop - start) = limitReader f start stop := by
  simp [readAt, limitReader, List.drop_take]

theorem limitReader_length (f : Bytes) (start stop : Nat) (h : stop ≤ f.length) :
    (limitReader f start stop).length = stop - start := by
  simp only [limitReader, List.length_drop, List.length_take]
  omega

theorem limitReader_take (f : Bytes) {start stop n : Nat} (hn : n ≤ stop - start) :
    limitReader f start (start + n) = (limitReader f start stop).take n := by
  simp only [limitReader, List.drop_take, List.take_take]
  congr 1
  omega

theorem limitReader_grown {f g : Bytes} (h : f <+: g) (start : Nat) {stop : Nat}
    (hstop : stop ≤ f.length) : limitReader g start stop = limitReader f start stop := by
  obtain ⟨more, rfl⟩ := h
  rw [limitReader, limitReader, List.take_append_of_le_length hstop]

theorem limitReader_split (f : Bytes) {start mid stop : Nat}
    (h₁ : start ≤ mid) (h₂ : mid ≤ stop) :
    limitReader f start stop = limitReader f start mid ++ limitReader f mid stop := by
  have hmid : start + (mid - start) = mid := by omega
  calc
    limitReader f start stop = (f.drop start).take ((mid - start) + (stop - mid)) := by
        rw [limitReader, List.drop_take]
        congr 1
        omega
    _ = (f.drop start).take (mid - start) ++ (f.drop mid).take (stop - mid) := by
        rw [List.take_add, List.drop_drop, hmid]
    _ = limitReader f start mid ++ limitReader f mid stop := by
        simp only [limitReader, List.drop_take]

theorem lastIndexByte_eq_none {b : UInt8} {s : Bytes} :
    lastIndexByte b s = none ↔ b ∉ s := by
  induction s with
  | nil => simp [lastIndexByte]
  | cons a rest ih =>
    simp only [lastIndexByte]
    cases hrest : lastIndexByte b rest with
    | none =>
      have hfree := ih.mp hrest
      by_cases hab : a = b
      · simp [hab]
      · simp [hab, Ne.symm hab, hfree]
    | some i =>
      have hmem : b ∈ rest := by
        by_contra hnot
        rw [ih.mpr hnot] at hrest
        cases hrest
      simp [hmem]

/-- One past the last newline is the length of the complete lines. -/
theorem lastIndexByte_newline {s : Bytes} {i : Nat}
    (h : lastIndexByte newline s = some i) : i + 1 = completeLength newline s := by
  induction s generalizing i with
  | nil => simp [lastIndexByte] at h
  | cons a rest ih =>
    simp only [lastIndexByte] at h
    cases hrest : lastIndexByte newline rest with
    | none =>
      rw [hrest] at h
      have hfree := lastIndexByte_eq_none.mp hrest
      by_cases ha : a = newline
      · simp only [ha, ↓reduceIte, Option.some.injEq] at h
        have hline := completeLength_append_of_free [newline] hfree
        rw [ha, ← h]
        exact hline.symm
      · simp [ha] at h
    | some j =>
      rw [hrest] at h
      simp only [Option.some.injEq] at h
      have hmem : newline ∈ rest := by
        by_contra hnot
        rw [lastIndexByte_eq_none.mpr hnot] at hrest
        cases hrest
      have hrec := ih hrest
      have happend := completeLength_append_of_mem [a] hmem
      simp only [List.singleton_append, List.length_singleton] at happend
      omega

end YcAgent.Go
