import YcAgent.Capture.NodeGC
import YcAgent.Capture.NodeGCLog
import YcAgent.Lib.LastLines
import YcAgent.Lib.Weakest

/-!
The M3 cycles of the Node.js GC capture over a stdout file that only grows. A
read ends after a complete line, so that a cycle goes on where a line starts;
only the offset a file begins with is the bare size of the file. The splitter
hands one line after the other to the two files it writes, and what it has handed
out is recorded here line by line.
-/

namespace YcAgent.Capture

open Go Lib.Lines Lib.Program

/-- The lines `SplitGCLog` calls `Write` with, in order. A failed write is the
last one. -/
def routedLines (src : Bytes) (split : NodeGCSplit) : List Bytes :=
  let here := if (readBytes src).1.length = 0 then [] else [(readBytes src).1]
  if (split.route (readBytes src).1).2 then
    if _h : (readBytes src).2.1 = true then here
    else here ++ routedLines (readBytes src).2.2 (split.route (readBytes src).1).1
  else here
termination_by src.length
decreasing_by exact readBytes_length_lt _h

def routedFrom (opened : Except String (Nat × Bytes)) (startOffset : Nat)
    (gcOut otherOut : Writer) :
    List Bytes :=
  match opened with
  | .error _ => []
  | .ok (size, content) =>
    let startOffset := if size < startOffset then 0 else startOffset
    let endOffset := findLastCompleteLineEnd content startOffset size
    if endOffset ≤ startOffset then []
    else routedLines (limitReader content startOffset endOffset) ⟨gcOut, otherOut, 0, 0⟩

section Routing

variable (split : NodeGCSplit)

private theorem readBytes_nil : readBytes [] = ([], true, []) := rfl

theorem routedLines_nil : routedLines [] split = [] := by
  rw [routedLines]
  simp [readBytes_nil]

theorem routedLines_line (line : Line newline) (rest : Bytes) :
    routedLines (line.text ++ rest) split =
      line.text :: if (split.route line.text).2 then routedLines rest (split.route line.text).1
        else [] := by
  have hlength : line.text.length ≠ 0 := by simp
  rw [routedLines]
  simp only [readBytes_line, hlength, ↓reduceIte, Bool.false_eq_true, ↓reduceDIte]
  split
  · rfl
  · rfl

theorem splitGCLog_nil_eq : splitGCLog [] split = (split, true) := by
  rw [splitGCLog]
  simp [readBytes_nil, NodeGCSplit.route]

theorem splitGCLog_line_eq (line : Line newline) (rest : Bytes) :
    splitGCLog (line.text ++ rest) split =
      if (split.route line.text).2 then splitGCLog rest (split.route line.text).1
      else ((split.route line.text).1, false) := by
  rw [splitGCLog]
  simp only [readBytes_line, Bool.false_eq_true, ↓reduceDIte]

theorem routedLines_among (lines : List (Line newline)) :
    routedLines (joinLines lines) split <+: lines.map Line.text := by
  induction lines generalizing split with
  | nil =>
    rw [joinLines_nil, routedLines_nil]
    exact List.nil_prefix
  | cons line rest ih =>
    rw [joinLines_cons, routedLines_line, List.map_cons, List.prefix_cons_inj]
    split
    · exact ih _
    · exact List.nil_prefix

theorem NodeGCSplit.route_ok (line : Line newline) (h : (split.route line.text).2 = true) :
    (split.route line.text).1.gcOut.out =
        split.gcOut.out ++ (if isNodeGCLine line.text then line.text else []) ∧
      (split.route line.text).1.otherOut.out =
        split.otherOut.out ++ (if isNodeGCLine line.text then [] else line.text) := by
  have hlength : line.text.length ≠ 0 := by simp
  unfold NodeGCSplit.route at h ⊢
  rw [if_neg hlength] at h ⊢
  cases hline : isNodeGCLine line.text with
  | true =>
    cases hwrite : split.gcOut.write line.text with
    | mk gcOut ok =>
      cases ok with
      | true => simp [Writer.write_ok hwrite]
      | false => simp [hline, hwrite] at h
  | false =>
    cases hwrite : split.otherOut.write line.text with
    | mk otherOut ok =>
      cases ok with
      | true => simp [Writer.write_ok hwrite]
      | false => simp [hline, hwrite] at h

/-- What stands in the two files after a split without an error is what was
handed out. -/
theorem splitGCLog_written (lines : List (Line newline))
    (h : (splitGCLog (joinLines lines) split).2 = true) :
    (splitGCLog (joinLines lines) split).1.gcOut.out =
        split.gcOut.out ++ ((routedLines (joinLines lines) split).filter isNodeGCLine).flatten ∧
      (splitGCLog (joinLines lines) split).1.otherOut.out =
        split.otherOut.out ++
          ((routedLines (joinLines lines) split).filter fun line =>
            !isNodeGCLine line).flatten := by
  induction lines generalizing split with
  | nil => simp [splitGCLog_nil_eq, routedLines_nil]
  | cons line rest ih =>
    rw [joinLines_cons, splitGCLog_line_eq] at h ⊢
    rw [routedLines_line]
    cases hroute : (split.route line.text).2 with
    | false => simp [hroute] at h
    | true =>
      rw [hroute, if_pos rfl] at h
      obtain ⟨hgc, hother⟩ := ih _ h
      obtain ⟨hgc', hother'⟩ := split.route_ok line hroute
      simp only [↓reduceIte, hgc, hother, hgc', hother']
      cases hline : isNodeGCLine line.text with
      | true => simp [hline]
      | false => simp [hline]

end Routing

/-- The complete lines of a file as they stand in it. -/
def wholeLines (f : Bytes) : List Bytes := (splitLines newline f).1.map Line.text

/-- An offset of the file at which a line starts. -/
structure Boundary (f : Bytes) (offset : Nat) : Prop where
  le : offset ≤ f.length
  terminated : Terminated newline (f.take offset)

theorem boundary_zero (f : Bytes) : Boundary f 0 := ⟨Nat.zero_le _, .inl List.take_zero⟩

theorem wholeLines_grown {f g : Bytes} (h : f <+: g) {line : Bytes} (hline : line ∈ wholeLines f) :
    line ∈ wholeLines g := by
  obtain ⟨more, rfl⟩ := h
  have hsplit := splitLines_join newline f
  have hmore : wholeLines (f ++ more) =
      wholeLines f ++ wholeLines ((splitLines newline f).2 ++ more) := by
    rw [wholeLines, ← hsplit, List.append_assoc, splitLines_join_append, List.map_append, hsplit,
      wholeLines, wholeLines]
  rw [hmore]
  exact List.mem_append_left _ hline

theorem Boundary.grown {f g : Bytes} {offset : Nat} (h : Boundary f offset) (hgrown : f <+: g) :
    Boundary g offset := by
  obtain ⟨more, rfl⟩ := hgrown
  refine ⟨h.le.trans (by simp), ?_⟩
  rw [List.take_append_of_le_length h.le]
  exact h.terminated

/-- A window of complete lines that starts at a boundary ends at one, and its
lines are lines of the file. -/
theorem Boundary.window {f : Bytes} {start stop : Nat} (h : Boundary f start) (hle : start ≤ stop)
    (hstop : stop ≤ f.length) {lines : List (Line newline)}
    (hlines : limitReader f start stop = joinLines lines) :
    Boundary f stop ∧ ∀ line ∈ lines, line.text ∈ wholeLines f := by
  have hstart : f.take start = joinLines (splitLines newline (f.take start)).1 := by
    have hsplit := splitLines_join newline (f.take start)
    rw [(terminated_iff _).mp h.terminated, List.append_nil] at hsplit
    exact hsplit.symm
  generalize (splitLines newline (f.take start)).1 = first at hstart
  have htake : f.take stop = joinLines (first ++ lines) := by
    have hparts := List.take_append_drop start (f.take stop)
    rw [List.take_take, min_eq_left hle] at hparts
    rw [joinLines_append, ← hstart, ← hlines, limitReader, hparts]
  constructor
  · refine ⟨hstop, ?_⟩
    rw [htake, terminated_iff]
    have hsplit := splitLines_unique (first ++ lines) [] List.not_mem_nil
    rw [List.append_nil] at hsplit
    rw [hsplit]
  · intro line hline
    have hwhole : wholeLines f =
        (first ++ lines).map Line.text ++ wholeLines (f.drop stop) := by
      conv_lhs => rw [← List.take_append_drop stop f, htake]
      rw [wholeLines, splitLines_join_append, List.map_append, wholeLines]
    rw [hwhole, List.map_append, List.append_assoc]
    apply List.mem_append_right
    apply List.mem_append_left
    exact List.mem_map_of_mem hline

/-- A read that starts at a boundary hands out whole lines and ends at a
boundary. -/
theorem splitNodeGCFrom_boundary {statted content : Bytes} (hgrows : statted <+: content)
    {start : Nat} (h : Boundary statted start) (gcOut otherOut : Writer) :
    Boundary content
      (splitNodeGCFrom (.ok (statted.length, content)) start gcOut otherOut).newOffset ∧
      ∀ line ∈ routedFrom (.ok (statted.length, content)) start gcOut otherOut,
        line ∈ wholeLines content := by
  have hlength := hgrows.length_le
  have hend := findLastCompleteLineEnd_eq content start statted.length hlength
  have hlines := limitReader_completeLength content start hlength
  have hwindow := limitReader_length content start statted.length hlength
  generalize limitReader content start statted.length = window at hend hlines hwindow
  have hcomplete := completeLength_le newline window
  have hle := h.le
  obtain ⟨hstop, hwhole⟩ :=
    (h.grown hgrows).window (Nat.le_add_right _ _) (by omega) hlines
  simp only [splitNodeGCFrom, routedFrom, Nat.not_lt.mpr hle, ↓reduceIte, hend]
  split
  · exact ⟨h.grown hgrows, fun line hline => absurd hline List.not_mem_nil⟩
  · rw [hlines]
    constructor
    · split
      · exact hstop
      · exact h.grown hgrows
    · intro line hline
      have hmem := (routedLines_among _ _).subset hline
      obtain ⟨whole, hin, htext⟩ := List.mem_map.mp hmem
      rw [← htext]
      exact hwhole whole hin

/-- What a read without an error has left in the two files is what it handed
out. -/
theorem splitNodeGCFrom_written {statted content : Bytes} (hgrows : statted <+: content)
    {start : Nat} {room room' : Option Nat}
    (h : (splitNodeGCFrom (.ok (statted.length, content)) start ⟨[], room⟩ ⟨[], room'⟩).err =
      none) :
    (splitNodeGCFrom (.ok (statted.length, content)) start ⟨[], room⟩ ⟨[], room'⟩).split.gcOut.out =
        ((routedFrom (.ok (statted.length, content)) start ⟨[], room⟩ ⟨[], room'⟩).filter
          isNodeGCLine).flatten ∧
      (splitNodeGCFrom (.ok (statted.length, content)) start ⟨[], room⟩
          ⟨[], room'⟩).split.otherOut.out =
        ((routedFrom (.ok (statted.length, content)) start ⟨[], room⟩ ⟨[], room'⟩).filter
          fun line => !isNodeGCLine line).flatten := by
  simp only [splitNodeGCFrom, routedFrom] at h ⊢
  generalize (if statted.length < start then 0 else start) = start at h ⊢
  have hend := findLastCompleteLineEnd_eq content start statted.length hgrows.length_le
  have hlines := limitReader_completeLength content start hgrows.length_le
  generalize limitReader content start statted.length = window at hend hlines
  rw [hend, hlines] at h ⊢
  split at h
  · next hnone => simp [hnone]
  · next hsome =>
      rw [if_neg hsome, if_neg hsome]
      cases hok : (splitGCLog (joinLines (splitLines newline window).1)
          ⟨⟨[], room⟩, ⟨[], room'⟩, 0, 0⟩).2 with
      | false => simp [hok] at h
      | true =>
        have hwritten := splitGCLog_written _ _ hok
        simpa [hok] using hwritten

/-- One call of `splitToFiles` that got as far as the split: the lines it handed
out, what stands in its two files, and whether they go on to be uploaded. -/
structure SplitRecord where
  stdout : Path
  lines : List Bytes
  gc : Bytes
  other : Bytes
  uploaded : Bool

structure StdoutState where
  files : Path → Bytes
  written : List SplitRecord

structure StdoutState.Grows (w w' : StdoutState) : Prop where
  files : ∀ path, w.files path <+: w'.files path
  written : w'.written = w.written

def splitOutcome (stdout : Path) (startOffset : Int) (size : Nat) (content : Bytes)
    (room room' : Option Nat) : Int × SplitRecord :=
  let read := splitNodeGCFrom (.ok (size, content)) startOffset.toNat ⟨[], room⟩ ⟨[], room'⟩
  (if read.err.isSome then startOffset else read.newOffset,
    { stdout := stdout
      lines := routedFrom (.ok (size, content)) startOffset.toNat ⟨[], room⟩ ⟨[], room'⟩
      gc := read.split.gcOut.out
      other := read.split.otherOut.out
      uploaded := read.err.isNone })

/-- `splitToFiles` may fail before it reads anything. Otherwise the file may grow
between its `Stat` and the read, and the disk may be full. -/
def HostOp.OnStdout : (op : HostOp) → StdoutState → op.Reply → StdoutState → Prop
  | .statSize path, w, r, w' =>
    (r = Except.ok ((w.files path).length : Int) ∨ ∃ err, r = Except.error err) ∧ w' = w
  | .splitToFiles stdout start _ _ _, w, r, w' =>
    (r.1 = start ∧ w' = w) ∨
      ∃ content room room', w.files stdout <+: content ∧
        r.1 = (splitOutcome stdout start (w.files stdout).length content room room').1 ∧
        w' = ⟨Function.update w.files stdout content, w.written ++
          [(splitOutcome stdout start (w.files stdout).length content room room').2]⟩
  | _, w, _, w' => w' = w

/-- An operation at a moment that meets a condition; the writer may have gone on
before it. -/
def During (cond : StdoutState → HostOp → Prop) (op : HostOp) (w : StdoutState) (r : op.Reply)
    (w' : StdoutState) : Prop :=
  ∃ w₁, w.Grows w₁ ∧ cond w₁ op ∧ op.OnStdout w₁ r w'

/-- The tracker and the files between calls: M3 cycles of any processes, and the
end of a cycle, which drops processes from the tracker. Each operation of a cycle
meets `cond`. -/
inductive NodeCycles (cond : NodeGCTracker → Pid → StdoutState → HostOp → Prop) :
    NodeGCTracker → StdoutState → Prop
  | start {w} : w.written = [] → NodeCycles cond ⟨∅⟩ w
  | grow {s w w'} : NodeCycles cond s w → w.Grows w' → NodeCycles cond s w'
  | run {s w trace out w'} (pid : Pid) (outDir : Path) (duration : Int) : NodeCycles cond s w →
      Runs (During (cond s pid)) (NodeGC.run ⟨pid, outDir, some s, true, duration⟩) w trace out w' →
      NodeCycles cond (out.1.getD s) w'
  | retainOnly {s w} (keep : GoMap Pid String) : NodeCycles cond s w →
      NodeCycles cond (s.retainOnly keep) w
  | forget {s w} (pid : Pid) : NodeCycles cond s w → NodeCycles cond (s.forget pid) w

/-- The first cycle of a file finds no line half written. It starts at the size that
`Stat` gives, wherever in a line that is. -/
def FirstAligned (s : NodeGCTracker) (pid : Pid) (w : StdoutState) : HostOp → Prop
  | .statSize path => ⟨pid, path⟩ ∉ s.offsets → Terminated newline (w.files path)
  | _ => True

/-- The offsets are boundaries, and only whole lines have been handed out. -/
structure LinesKept (s : NodeGCTracker) (w : StdoutState) : Prop where
  offsets : ∀ key offset, s.offsets.lookup key = some offset →
    ∃ n : Nat, offset = n ∧ Boundary (w.files key.path) n
  whole : ∀ x ∈ w.written, ∀ line ∈ x.lines, line ∈ wholeLines (w.files x.stdout)
  uploads : ∀ x ∈ w.written, x.uploaded = true →
    x.gc = (x.lines.filter isNodeGCLine).flatten ∧
      x.other = (x.lines.filter fun line => !isNodeGCLine line).flatten

namespace LinesKept

variable {s : NodeGCTracker} {w w' : StdoutState}

theorem grows (h : LinesKept s w) (hgrows : w.Grows w') : LinesKept s w' where
  offsets key offset hkey := by
    obtain ⟨n, hn, hboundary⟩ := h.offsets key offset hkey
    exact ⟨n, hn, hboundary.grown (hgrows.files _)⟩
  whole x hx line hline := by
    rw [hgrows.written] at hx
    exact wholeLines_grown (hgrows.files _) (h.whole x hx line hline)
  uploads x hx := by
    rw [hgrows.written] at hx
    exact h.uploads x hx

theorem deleteWhere (h : LinesKept s w) (drop : NodeGCKey → Bool) :
    LinesKept ⟨s.offsets.deleteWhere drop⟩ w := by
  refine ⟨?_, h.whole, h.uploads⟩
  intro key offset hkey
  exact h.offsets key offset (GoMap.lookup_of_deleteWhere hkey)

def AtLine (w : StdoutState) (path : Path) (offset : Int) : Prop :=
  ∃ n : Nat, offset = n ∧ Boundary (w.files path) n

theorem insert (h : LinesKept s w) {pid : Pid} {path : Path} {offset : Int}
    (hoffset : AtLine w path offset) : LinesKept ⟨s.offsets.insert ⟨pid, path⟩ offset⟩ w := by
  refine ⟨?_, h.whole, h.uploads⟩
  intro key stored hkey
  by_cases heq : key = ⟨pid, path⟩
  · rw [heq, AList.lookup_insert] at hkey
    cases hkey
    rw [heq]
    exact hoffset
  · rw [AList.lookup_insert_ne heq] at hkey
    exact h.offsets key stored hkey

theorem offset_boundary (h : LinesKept s w) (pid : Pid) (path : Path) :
    AtLine w path (s.offset pid path) := by
  unfold NodeGCTracker.offset
  cases hkey : s.offsets.lookup ⟨pid, path⟩ with
  | none => exact ⟨0, rfl, boundary_zero _⟩
  | some offset => exact h.offsets _ offset hkey

/-- A split from a boundary hands out whole lines, and the offset it returns is a
boundary. -/
private theorem split (h : LinesKept s w) {stdout : Path} {start : Nat}
    (hstart : Boundary (w.files stdout) start) {content : Bytes}
    (hgrows : w.files stdout <+: content) (room room' : Option Nat) :
    let out := splitOutcome stdout start (w.files stdout).length content room room'
    let w' : StdoutState := ⟨Function.update w.files stdout content, w.written ++ [out.2]⟩
    LinesKept s w' ∧ AtLine w' stdout out.1 := by
  intro out w'
  obtain ⟨hnew, hlines⟩ := splitNodeGCFrom_boundary hgrows hstart ⟨[], room⟩ ⟨[], room'⟩
  have hcontent : w'.files stdout = content := Function.update_self ..
  have hfiles : StdoutState.Grows w ⟨w'.files, w.written⟩ := by
    refine ⟨?_, rfl⟩
    intro path
    by_cases hpath : path = stdout
    · rw [hpath]
      exact hcontent ▸ hgrows
    · have hother : w'.files path = w.files path := Function.update_of_ne hpath ..
      exact hother ▸ List.prefix_refl _
  have hbefore := h.grows hfiles
  have hafter : ∀ x ∈ w'.written, x ∈ w.written ∨ x = out.2 := by
    intro x hx
    exact (List.mem_append.mp hx).imp_right List.mem_singleton.mp
  constructor
  · refine ⟨hbefore.offsets, ?_, ?_⟩
    · intro x hx line hline
      rcases hafter x hx with hold | heq
      · exact hbefore.whole x hold line hline
      · rw [heq] at hline ⊢
        exact hcontent ▸ hlines line hline
    · intro x hx huploaded
      rcases hafter x hx with hold | heq
      · exact h.uploads x hold huploaded
      · rw [heq] at huploaded ⊢
        exact splitNodeGCFrom_written hgrows (Option.isNone_iff_eq_none.mp huploaded)
  · rw [AtLine, hcontent]
    by_cases herr : (splitNodeGCFrom (.ok ((w.files stdout).length, content)) start ⟨[], room⟩
        ⟨[], room'⟩).err.isSome = true
    · exact ⟨start, if_pos herr, hstart.grown hgrows⟩
    · exact ⟨_, if_neg herr, hnew⟩

theorem splitToFiles (h : LinesKept s w) {stdout gcOut appOut : Path} {start : Int} {flag : Bool}
    (hstart : AtLine w stdout start) {r : Int × Result}
    (hop : (HostOp.splitToFiles stdout start gcOut appOut flag).OnStdout w r w') :
    LinesKept s w' ∧ AtLine w' stdout r.1 := by
  obtain ⟨n, rfl, hboundary⟩ := hstart
  rcases hop with ⟨hr, rfl⟩ | ⟨content, room, room', hgrows, hr, rfl⟩
  · exact ⟨h, n, hr, hboundary⟩
  · rw [hr]
    exact h.split hboundary hgrows room room'

end LinesKept

section Cycle

theorem meets_ask {World : Type} {perform : (op : HostOp) → World → op.Reply → World → Prop}
    {w : World} (op : HostOp) (Q : op.Reply → World → Prop) :
    (ask op).Meets perform w Q ↔ ∀ r w', perform op w r w' → Q r w' := Iff.rfl

variable {s : NodeGCTracker} {pid : Pid} {w w' : StdoutState}

theorem LinesKept.idle (h : LinesKept s w) {cond : StdoutState → HostOp → Prop} {op : HostOp}
    {r : op.Reply} (hperform : During cond op w r w')
    (hidle : ∀ w₁, op.OnStdout w₁ r w' → w' = w₁) :
    LinesKept s w' := by
  obtain ⟨w₁, hgrows, -, hop⟩ := hperform
  rw [hidle w₁ hop]
  exact h.grows hgrows

variable (t : NodeGC)

theorem readOn_meets (htracker : t.tracker = some s) (h : LinesKept s w)
    (stdout gcOut appOut : Path) {cond : StdoutState → HostOp → Prop} :
    (t.readOn stdout gcOut appOut).Meets (During cond) w fun out w' =>
      LinesKept (out.1.getD s) w' := by
  intro r w' hperform
  obtain ⟨w₁, hgrows, -, hop⟩ := hperform
  have hkept := h.grows hgrows
  rw [htracker] at hop ⊢
  obtain ⟨hsplit, hafter⟩ := hkept.splitToFiles (hkept.offset_boundary t.pid stdout) hop
  exact hsplit.insert hafter

theorem continuous_meets (htracker : t.tracker = some s) (h : LinesKept s w)
    (stdout gcOut appOut : Path) :
    (t.continuous stdout gcOut appOut).Meets (During (FirstAligned s t.pid)) w fun out w' =>
      LinesKept (out.1.getD s) w' := by
  unfold NodeGC.continuous
  rw [htracker]
  simp only [Prog.meets_bind, meets_ask]
  intro r w' hperform
  have hkept : LinesKept s w' := h.idle hperform fun w₁ hop => hop.2
  obtain ⟨w₁, hgrows, hcond, hsize, rfl⟩ := hperform
  rcases hsize with rfl | ⟨err, rfl⟩
  · cases hkey : s.offsets.lookup ⟨t.pid, stdout⟩ with
    | some offset =>
      have hinit : s.initIfAbsent t.pid stdout ((w'.files stdout).length : Int) = (s, false) := by
        rw [NodeGCTracker.initIfAbsent, hkey]
      simp only [hinit]
      exact readOn_meets t htracker hkept stdout gcOut appOut
    | none =>
      have hinit : s.initIfAbsent t.pid stdout ((w'.files stdout).length : Int) =
          (⟨s.offsets.insert ⟨t.pid, stdout⟩ ((w'.files stdout).length : Int)⟩, true) := by
        rw [NodeGCTracker.initIfAbsent, hkey]
      simp only [hinit]
      have hterminated := hcond (AList.lookup_eq_none.mp hkey)
      apply hkept.insert
      refine ⟨(w'.files stdout).length, rfl, le_rfl, ?_⟩
      rwa [List.take_length]
  · exact readOn_meets t htracker hkept stdout gcOut appOut

theorem fallback_meets (hm3 : t.m3 = true) (h : LinesKept s w) (stdout : Except String Path)
    (hasFlag : Bool) (gcOut : Path) (cond : StdoutState → HostOp → Prop) :
    (t.fallback stdout hasFlag gcOut).Meets (During cond) w fun _ w' => LinesKept s w' := by
  unfold NodeGC.fallback
  rw [hm3]
  exact h

theorem run_meets (pid : Pid) (outDir : Path) (duration : Int) (h : LinesKept s w) :
    (NodeGC.run ⟨pid, outDir, some s, true, duration⟩).Meets (During (FirstAligned s pid)) w
      fun out w' => LinesKept (out.1.getD s) w' := by
  unfold NodeGC.run NodeGC.nodeAbsOutPath
  intro gcOut w₁ hgc
  have h₁ := h.idle hgc fun _ hop => hop
  cases gcOut with
  | error err => exact h₁
  | ok gcOut =>
    intro appOut w₂ happ
    have h₂ := h₁.idle happ fun _ hop => hop
    cases appOut with
    | error err => exact h₂
    | ok appOut =>
      intro stdout w₃ hresolve hasFlag w₄ hflag
      have h₃ := h₂.idle hresolve fun _ hop => hop
      have h₄ := h₃.idle hflag fun _ hop => hop
      have hnone (hasFlag : Bool) (stdout : Except String Path) :=
        fallback_meets ⟨pid, outDir, some s, true, duration⟩ rfl h₄ stdout hasFlag gcOut
          (FirstAligned s pid)
      cases hasFlag with
      | false => exact (Prog.meets_bind _ _ _).mpr (hnone false stdout)
      | true =>
        cases stdout with
        | error err => exact (Prog.meets_bind _ _ _).mpr (hnone true (.error err))
        | ok path =>
          change Prog.Meets _ (if path ≠ "" then _ else _) _ _
          split
          · exact (Prog.meets_bind _ _ _).mpr (continuous_meets
              ⟨pid, outDir, some s, true, duration⟩ rfl h₄ path gcOut appOut)
          · exact (Prog.meets_bind _ _ _).mpr (hnone true (.ok path))

end Cycle

theorem NodeCycles.linesKept {s : NodeGCTracker} {w : StdoutState}
    (h : NodeCycles FirstAligned s w) :
    LinesKept s w := by
  induction h with
  | @start w hnone =>
    refine ⟨?_, ?_, ?_⟩
    · intro key offset hkey
      rw [AList.lookup_empty] at hkey
      cases hkey
    · rw [hnone]
      intro x hx
      cases hx
    · rw [hnone]
      intro x hx
      cases hx
  | grow _ hgrows ih => exact ih.grows hgrows
  | @run s w trace out w' pid outDir duration _ hrun ih =>
    exact hrun.of_meets (Q := fun out w' => LinesKept (out.1.getD s) w')
      (run_meets pid outDir duration ih)
  | retainOnly keep _ ih => exact ih.deleteWhere _
  | forget pid _ ih => exact ih.deleteWhere _

/-- If the first cycle of every file finds no line half written, then over all
cycles, at whatever moments they come, each line handed to one of the two files is
a whole line of the stdout file, and what is uploaded is made of those lines. -/
theorem node_cycles_hand_out_whole_lines {s : NodeGCTracker} {w : StdoutState}
    (h : NodeCycles FirstAligned s w) :
    ∀ x ∈ w.written, (∀ line ∈ x.lines, line ∈ wholeLines (w.files x.stdout)) ∧
      (x.uploaded = true → x.gc = (x.lines.filter isNodeGCLine).flatten ∧
        x.other = (x.lines.filter fun line => !isNodeGCLine line).flatten) := by
  intro x hx
  exact ⟨h.linesKept.whole x hx, h.linesKept.uploads x hx⟩

section TwoCycles

def outLog (f : Bytes) : StdoutState := ⟨fun path => if path = "out.log" then f else [], []⟩

def trackedAt (offset : Int) : NodeGCTracker := NodeGCTracker.setOffset ⟨∅⟩ 7 "out.log" offset

private def outLogGC (s : NodeGCTracker) : NodeGC := ⟨7, "", some s, true, 0⟩

variable {cond : NodeGCTracker → Pid → StdoutState → HostOp → Prop} {before after : Bytes}

private theorem during_refl {cond : StdoutState → HostOp → Prop} {op : HostOp} {w w' : StdoutState}
    {r : op.Reply} (hcond : cond w op) (hop : op.OnStdout w r w') : During cond op w r w' :=
  ⟨w, ⟨fun _ => List.prefix_refl _, rfl⟩, hcond, hop⟩

/-- A cycle that finds the stdout file and the flag. -/
private theorem run_of_continuous {cond : StdoutState → HostOp → Prop} {s : NodeGCTracker}
    {w w' : StdoutState} {trace : Trace HostOp HostOp.Reply StdoutState}
    {out : Option NodeGCTracker × Result} (hcond : ∀ op, cond w op)
    (h : Runs (During cond) ((outLogGC s).continuous "out.log" "gc.log" "app.log") w trace out w') :
    ∃ trace, Runs (During cond) (outLogGC s).run w trace (out.1, .ok out.2) w' := by
  have hgc : During cond (.absPath (joinPath "." "gc.log")) w (Except.ok "gc.log") w :=
    during_refl (hcond _) rfl
  have happ : During cond (.absPath (joinPath "." "1.appLogs.nodeapp.log")) w
      (Except.ok "app.log") w :=
    during_refl (hcond _) rfl
  have hwhere : During cond (.resolveNodeGCStdoutPath 7) w (Except.ok "out.log") w :=
    during_refl (hcond _) rfl
  have hflag : During cond (.nodeHasTraceGCFlag 7) w true w := during_refl (hcond _) rfl
  exact ⟨_, .step hgc (.step happ (.step hwhere (.step hflag (h.bind (.stop _)))))⟩

theorem first_cycle (hcond : ∀ op, cond ⟨∅⟩ 7 (outLog before) op) :
    ∃ trace out, Runs (During (cond ⟨∅⟩ 7)) (outLogGC ⟨∅⟩).run (outLog before) trace
      (some (trackedAt before.length), out) (outLog before) := by
  have hstat : During (cond ⟨∅⟩ 7) (.statSize "out.log") (outLog before)
      (Except.ok (before.length : Int)) (outLog before) := during_refl (hcond _) ⟨.inl rfl, rfl⟩
  have hcontinuous : Runs (During (cond ⟨∅⟩ 7))
      ((outLogGC ⟨∅⟩).continuous "out.log" "gc.log" "app.log")
      (outLog before) _ (some (trackedAt before.length), _) (outLog before) :=
    .step hstat (.stop _)
  obtain ⟨trace, hrun⟩ := run_of_continuous hcond hcontinuous
  exact ⟨trace, _, hrun⟩

def secondSplit (before after : Bytes) : Int × SplitRecord :=
  splitOutcome "out.log" before.length after.length after none none

theorem second_cycle (hcond : ∀ op, cond (trackedAt before.length) 7 (outLog after) op) :
    ∃ trace out w, Runs (During (cond (trackedAt before.length) 7))
      (outLogGC (trackedAt before.length)).run (outLog after) trace out w ∧
        w.files "out.log" = after ∧ w.written = [(secondSplit before after).2] := by
  have hstat : During (cond (trackedAt before.length) 7) (.statSize "out.log") (outLog after)
      (Except.ok (after.length : Int)) (outLog after) := during_refl (hcond _) ⟨.inl rfl, rfl⟩
  have hsplit : During (cond (trackedAt before.length) 7)
      (.splitToFiles "out.log" before.length "gc.log" "app.log" true) (outLog after)
      ((secondSplit before after).1, ⟨"", true⟩)
      ⟨Function.update (outLog after).files "out.log" after, [(secondSplit before after).2]⟩ := by
    apply during_refl (hcond _)
    exact .inr ⟨after, none, none, List.prefix_refl _, rfl, rfl⟩
  have hcontinuous : Runs (During (cond (trackedAt before.length) 7))
      ((outLogGC (trackedAt before.length)).continuous "out.log" "gc.log" "app.log")
      (outLog after) _ _ _ := .step hstat (.step hsplit (.stop _))
  obtain ⟨trace, hrun⟩ := run_of_continuous hcond hcontinuous
  have hfile : Function.update (outLog after).files "out.log" after "out.log" = after :=
    Function.update_self _ _ _
  exact ⟨trace, _, _, hrun, hfile, rfl⟩

theorem two_cycles (cond : NodeGCTracker → Pid → StdoutState → HostOp → Prop) (before after : Bytes)
    (hgrows : before <+: after) (hfirst : ∀ op, cond ⟨∅⟩ 7 (outLog before) op)
    (hsecond : ∀ op, cond (trackedAt before.length) 7 (outLog after) op) :
    ∃ s w, NodeCycles cond s w ∧ w.files "out.log" = after ∧
      w.written = [(secondSplit before after).2] := by
  obtain ⟨_, _, hone⟩ := first_cycle hfirst
  obtain ⟨_, _, w, htwo, hfile, hwritten⟩ := second_cycle hsecond
  have hwrites : (outLog before).Grows (outLog after) := by
    refine ⟨?_, rfl⟩
    intro path
    by_cases hpath : path = "out.log"
    · simpa [outLog, hpath] using hgrows
    · simp [outLog, hpath]
  have hstart : NodeCycles cond ⟨∅⟩ (outLog before) := .start rfl
  exact ⟨_, w, .run 7 "" 0 (.grow (.run 7 "" 0 hstart hone) hwrites) htwo, hfile, hwritten⟩

theorem firstAligned_outLog (s : NodeGCTracker) {f : Bytes} (h : Terminated newline f)
    (op : HostOp) :
    FirstAligned s 7 (outLog f) op := by
  cases op with
  | statSize path =>
    intro _
    by_cases hpath : path = "out.log"
    · simp only [outLog, if_pos hpath]
      exact h
    · simp only [outLog, if_neg hpath]
      exact .inl rfl
  | _ => trivial

/-- A line written in two halves, the first of them before the first cycle. -/
theorem secondSplit_halves :
    (secondSplit (utf8 "1: Scavenge 2\nlis") (utf8 "1: Scavenge 2\nlistening\n")).2.lines =
      [utf8 "tening\n"] ∧
    (secondSplit (utf8 "1: Scavenge 2\nlis") (utf8 "1: Scavenge 2\nlistening\n")).2.uploaded =
      true := by
  constructor
  · have hend : findLastCompleteLineEnd (utf8 "1: Scavenge 2\nlistening\n") 17 24 = 24 := by
      rw [findLastCompleteLineEnd_eq _ _ _ (by decide)]
      decide
    have hwindow : limitReader (utf8 "1: Scavenge 2\nlistening\n") 17 24 =
        (⟨utf8 "tening", by decide⟩ : Line newline).text ++ [] := by decide
    have hrouted : routedFrom (.ok (24, utf8 "1: Scavenge 2\nlistening\n")) 17 ⟨[], none⟩
        ⟨[], none⟩ =
        [utf8 "tening\n"] := by
      have hstart : (if 24 < 17 then 0 else 17) = 17 := by decide
      simp only [routedFrom, hstart, hend, hwindow, routedLines_line, routedLines_nil]
      decide
    exact hrouted
  · obtain ⟨n, m, hread⟩ := splitNodeGCFrom_buffer (utf8 "1: Scavenge 2\nlistening\n") 17 24
      (by decide) (by decide)
    exact congrArg (fun read => read.err.isNone) hread

end TwoCycles

theorem whole_line_handed_out :
    ∃ s w, NodeCycles FirstAligned s w ∧
      w.written = [(secondSplit (utf8 "1: Scavenge 2\n") (utf8 "1: Scavenge 2\nlistening\n")).2] ∧
      ∀ x ∈ w.written, (∀ line ∈ x.lines, line ∈ wholeLines (w.files x.stdout)) ∧
        (x.uploaded = true → x.gc = (x.lines.filter isNodeGCLine).flatten ∧
          x.other = (x.lines.filter fun line => !isNodeGCLine line).flatten) := by
  have hfirst := firstAligned_outLog ⟨∅⟩ (f := utf8 "1: Scavenge 2\n") (by decide)
  have hsecond := firstAligned_outLog (trackedAt (utf8 "1: Scavenge 2\n").length)
    (f := utf8 "1: Scavenge 2\nlistening\n") (by decide)
  obtain ⟨s, w, hcycles, -, hwritten⟩ := two_cycles FirstAligned _ _ (by decide) hfirst hsecond
  exact ⟨s, w, hcycles, hwritten, node_cycles_hand_out_whole_lines hcycles⟩

/-- Without the condition, the second cycle hands out the second half of the line
as a line of its own, and it is uploaded. -/
theorem half_line_handed_out :
    ∃ s w, NodeCycles (fun _ _ _ _ => True) s w ∧
      ∃ x ∈ w.written, x.uploaded = true ∧ x.lines = [utf8 "tening\n"] ∧
        utf8 "tening\n" ∉ wholeLines (w.files x.stdout) := by
  obtain ⟨s, w, hcycles, hfile, hwritten⟩ :=
    two_cycles (fun _ _ _ _ => True) (utf8 "1: Scavenge 2\nlis")
      (utf8 "1: Scavenge 2\nlistening\n") (by decide) (fun _ => trivial) fun _ => trivial
  obtain ⟨hlines, huploaded⟩ := secondSplit_halves
  refine ⟨s, w, hcycles, _, by rw [hwritten]; exact List.mem_singleton_self _, huploaded,
    hlines, ?_⟩
  have hstdout : (secondSplit (utf8 "1: Scavenge 2\nlis")
      (utf8 "1: Scavenge 2\nlistening\n")).2.stdout = "out.log" := rfl
  rw [hstdout, hfile]
  decide

end YcAgent.Capture
