import YcAgent.Capture.DotnetGCLog

/-!
Opening a .NET GC log and copying it while the collector writes it. The header
is read when the log is opened, and a header that has no newline yet is taken
as it is; the events are read from where the header ended, later. The two parts
fit together whatever happens in between, so all that counts is whether the
newline of the header is there when the size is taken for the copy.
-/

namespace YcAgent.Capture

open Lib.Lines Go

theorem openDotnetGCLog_ok {p : GCLogParsers} {file : Bytes} {d : DotnetGCLog}
    (h : openDotnetGCLog p file = .ok d) :
    d.header = (readBytes file).1 ∧ d.eventsOffset = d.header.length := by
  unfold openDotnetGCLog readHeader at h
  simp only [bind, Except.bind, pure, Except.pure] at h
  split at h
  · cases h
  · next found hfound =>
      cases h
      split at hfound
      · cases hfound
      · split at hfound
        · cases hfound
        · split at hfound
          · cases hfound
          · cases hfound
            exact ⟨rfl, rfl⟩

/-- What a read of the first line of a growing file has found, and where that
leaves the rest of the file: a first line without its newline is completed by
the bytes that follow it, unless these have no newline either. -/
theorem firstLine_then_lines {opened statted : Bytes} (h : opened <+: statted) :
    ∃ rest, statted = (readBytes opened).1 ++ rest ∧
      (readBytes opened).1 ++ joinLines (splitLines newline rest).1 =
        if newline ∈ statted then joinLines (splitLines newline statted).1 else opened := by
  obtain ⟨more, rfl⟩ := h
  obtain ⟨lines, tail, hopened, htail⟩ : ∃ (lines : List (Line newline)) (tail : Bytes),
      opened = joinLines lines ++ tail ∧ newline ∉ tail :=
    ⟨_, _, (splitLines_join newline opened).symm, splitLines_tail_free newline opened⟩
  have htake := takeLine_join lines tail htail
  rw [← hopened] at htake
  cases lines with
  | nil =>
    have hfree : newline ∉ opened := by simpa [hopened] using htail
    refine ⟨more, by simp [readBytes, htake], ?_⟩
    simp only [readBytes, htake]
    by_cases hmore : newline ∈ more
    · rw [if_pos (List.mem_append_right _ hmore), joinLines_splitLines_append _ hmore]
    · rw [if_neg (by simp [hfree, hmore]), splitLines_of_free hmore, joinLines_nil,
        List.append_nil]
  | cons line rest =>
    have hstatted : opened ++ more = line.text ++ (joinLines rest ++ tail ++ more) := by
      simp [hopened]
    have hmem : newline ∈ opened ++ more := by simp [hstatted, Line.text]
    refine ⟨joinLines rest ++ tail ++ more, by simp [readBytes, htake, hstatted], ?_⟩
    rw [if_pos hmem, hstatted, splitLines_text, joinLines_cons]
    simp [readBytes, htake]

theorem copy_ok {d : DotnetGCLog} {f : Bytes} {fileSize : Nat} {w w' : Writer}
    (hsize : fileSize ≤ f.length) (h : d.copy f fileSize w = (w', none)) :
    w'.out = w.out ++ (d.header ++
      joinLines (splitLines newline (limitReader f d.eventsOffset fileSize)).1) := by
  unfold DotnetGCLog.copy at h
  simp only at h
  split at h
  · next hok =>
      have hheader : (w.write d.header).1.out = w.out ++ d.header :=
        Writer.write_ok (Prod.ext rfl hok)
      rw [copyFromOffset_ok hsize h, hheader, List.append_assoc]
  · cases h

theorem newline_mem_iff {header : Line newline} {s more : Bytes} (h : s <+: header.text ++ more) :
    newline ∈ s ↔ header.text.length ≤ s.length := by
  constructor
  · intro hmem
    by_contra hshort
    have hbody : s <+: header.body := by
      apply List.prefix_of_prefix_length_le h
      · rw [Line.text, List.append_assoc]
        exact List.prefix_append _ _
      · rw [Line.text_length] at hshort
        omega
    exact header.body_free (hbody.subset hmem)
  · intro hlong
    have htext : header.text <+: s :=
      List.prefix_of_prefix_length_le (List.prefix_append _ _) h hlong
    exact htext.subset (by simp [Line.text])

/-- A complete header line, with its newline, and then complete event lines of
the log. -/
def HeaderAndEvents (header : Line newline) (events : List (Line newline)) (out : Bytes) : Prop :=
  ∃ lines, (∀ line ∈ lines, line ∈ events) ∧ out = header.text ++ joinLines lines

/-- For a log that is written while it is opened and copied, a copy is complete
if and only if the header line was complete when the copy took the size of the
file; it then has exactly the lines that were complete. -/
theorem copy_complete_iff {p : GCLogParsers} {header : Line newline}
    {events : List (Line newline)} {opened statted read : Bytes} (hopen : opened <+: statted)
    (hstat : statted <+: read) (hread : read <+: joinLines (header :: events))
    {d : DotnetGCLog} (hd : openDotnetGCLog p opened = .ok d) {w w' : Writer}
    (hcopy : d.copy read statted.length w = (w', none)) :
    ∃ out, w'.out = w.out ++ out ∧
      (HeaderAndEvents header events out ↔ header.text.length ≤ statted.length) ∧
      (header.text.length ≤ statted.length → out = joinLines (splitLines newline statted).1) := by
  obtain ⟨hheader, hoffset⟩ := openDotnetGCLog_ok hd
  obtain ⟨rest, hstatted, hout⟩ := firstLine_then_lines hopen
  have hwindow : limitReader read d.eventsOffset statted.length = rest := by
    rw [limitReader, ← List.prefix_iff_eq_take.mp hstat, hoffset, hheader]
    nth_rewrite 1 [hstatted]
    exact List.drop_left
  have hwritten := copy_ok hstat.length_le hcopy
  rw [hwindow, hheader, hout] at hwritten
  have hwhole : statted <+: header.text ++ joinLines events := hstat.trans hread
  have hcomplete := newline_mem_iff hwhole
  refine ⟨_, hwritten, ?_⟩
  by_cases hmem : newline ∈ statted
  · rw [if_pos hmem]
    have hlong := hcomplete.mp hmem
    refine ⟨iff_of_true ?_ hlong, fun _ => rfl⟩
    obtain ⟨part, hpart⟩ := List.prefix_of_prefix_length_le (List.prefix_append _ _) hwhole hlong
    have hevents : part <+: joinLines events := by
      rw [← hpart] at hwhole
      exact (List.prefix_append_right_inj _).mp hwhole
    refine ⟨(splitLines newline part).1,
      fun line hline => (splitLines_of_front hevents).subset hline,
      ?_⟩
    rw [← hpart, splitLines_text, joinLines_cons]
  · rw [if_neg hmem]
    have hshort : ¬ header.text.length ≤ statted.length := fun hlong => hmem (hcomplete.mpr hlong)
    refine ⟨iff_of_false ?_ hshort, fun hlong => absurd hlong hshort⟩
    rintro ⟨lines, -, hlines⟩
    apply hmem
    apply hopen.subset
    rw [hlines]
    simp [Line.text]

section Sample

def netHeader : Line newline := ⟨utf8 "\x7b\"Platform\":\".Net\"\x7d", by decide⟩

def netEvent : Line newline := ⟨utf8 "\x7b\"Generation\":0\x7d", by decide⟩

/-- Finds the field of a header, whether or not its line has ended. -/
def netParsers : GCLogParsers where
  get line path :=
    if path = "Platform" ∧ (utf8 "\x7b\"Platform\":\".Net\"").isPrefixOf line then some ".Net"
    else none
  parseTime _ := .error "no time"

def cutHeader : DotnetGCLog := ⟨netHeader.body, netHeader.body.length⟩

private theorem open_cutHeader : openDotnetGCLog netParsers netHeader.body = .ok cutHeader := rfl

theorem late_newline_copied : ∃ w',
    cutHeader.copy (joinLines [netHeader, netEvent]) (joinLines [netHeader, netEvent]).length
        .buffer = (w', none) ∧
      HeaderAndEvents netHeader [netEvent] w'.out := by
  have hcopy : ∃ w', cutHeader.copy (joinLines [netHeader, netEvent])
      (joinLines [netHeader, netEvent]).length .buffer = (w', none) := by
    simp only [DotnetGCLog.copy, Writer.buffer, Writer.write_unbounded, ↓reduceIte]
    exact ⟨_, copyFromOffset_buffer _ _ _ _ (Nat.le_refl _)⟩
  obtain ⟨w', hw'⟩ := hcopy
  have hprefix : netHeader.body <+: joinLines [netHeader, netEvent] :=
    ⟨newline :: netEvent.text, by decide⟩
  obtain ⟨out, hout, hiff, -⟩ := copy_complete_iff hprefix (List.prefix_refl _)
    (List.prefix_refl _) open_cutHeader hw'
  refine ⟨w', hw', ?_⟩
  rw [hout]
  exact hiff.mpr (by decide)

/-- Both the opening and the copy happen before the newline of the header is
written. The copy succeeds and has a header without it. -/
theorem header_without_newline : ∃ w',
    openDotnetGCLog netParsers netHeader.body = .ok cutHeader ∧
      cutHeader.copy netHeader.body netHeader.body.length .buffer = (w', none) ∧
      netHeader.body <+: joinLines [netHeader, netEvent] ∧ w'.out = netHeader.body ∧
      ¬ HeaderAndEvents netHeader [netEvent] w'.out := by
  refine ⟨⟨netHeader.body, none⟩, open_cutHeader, rfl, ⟨newline :: netEvent.text, by decide⟩,
    rfl, ?_⟩
  rintro ⟨lines, -, hlines⟩
  apply netHeader.body_free
  rw [show netHeader.body = netHeader.text ++ joinLines lines from hlines]
  simp [Line.text]

end Sample

end YcAgent.Capture
