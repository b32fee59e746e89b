import YcAgent.Capture.GCLogLines

/-!
The byte-offset binary search of the .NET GC log agrees with the linear filter
of its complete event lines. The search interval is tied to the lines as
follows: `lo` is the end of a prefix of events that are all too early, and no
event that starts at `hi` or later is too early. `lo` may overshoot `hi`; the
two conditions then already cut the log in two.
-/

namespace YcAgent.Capture

open Lib.Lines Go

/-- The bytes of a .NET GC log: a valid header line, complete event lines with
non-decreasing stop times, and what the collector has written of the next
line. -/
structure GCLogFile (p : GCLogParsers) where
  header : Line newline
  header_valid : p.get header.text "Platform" = some ".Net"
  events : List (Line newline)
  events_timed : ∀ line ∈ events, (stopTime p line.text).isSome
  events_ordered : events.Pairwise fun first second =>
    ∀ s ∈ stopTime p first.text, ∀ t ∈ stopTime p second.text, s ≤ t
  fragment : Bytes
  fragment_free : newline ∉ fragment

namespace GCLogFile

variable {p : GCLogParsers}

def bytes (log : GCLogFile p) : Bytes :=
  log.header.text ++ joinLines log.events ++ log.fragment

/-- The linear reference: the complete events at or after an instant, in file
order. -/
def eventsAfter (log : GCLogFile p) (after : Time) : List (Line newline) :=
  log.events.filter fun line => (stopTime p line.text).any fun time => after ≤ time

def Early (p : GCLogParsers) (after : Time) (line : Line newline) : Prop :=
  ∀ time ∈ stopTime p line.text, time < after

def Late (p : GCLogParsers) (after : Time) (line : Line newline) : Prop :=
  ∀ time ∈ stopTime p line.text, after ≤ time

def offsetOf (log : GCLogFile p) (before : List (Line newline)) : Nat :=
  (joinLines (log.header :: before)).length

/-- What the search keeps true of its interval. -/
structure Cut (log : GCLogFile p) (after : Time) (lo hi : Nat) where
  before : List (Line newline)
  rest : List (Line newline)
  split : log.events = before ++ rest
  lo_eq : lo = log.offsetOf before
  early : ∀ line ∈ before, Early p after line
  late : ∀ first line more, log.events = first ++ line :: more →
    hi ≤ log.offsetOf first → Late p after line

theorem offsetOf_append_le (log : GCLogFile p) (first second : List (Line newline)) :
    log.offsetOf first ≤ log.offsetOf (first ++ second) := by
  simp only [offsetOf, joinLines_cons, joinLines_append, List.length_append]
  omega

theorem bytes_eq (log : GCLogFile p) :
    log.bytes = joinLines (log.header :: log.events) ++ log.fragment := by
  simp [bytes]

/-- When the interval is empty, the lines before `lo` are the early events and
those after it the late ones. -/
theorem Cut.rest_late {log : GCLogFile p} {after : Time} {lo hi : Nat}
    (cut : Cut log after lo hi) (hdone : hi ≤ lo) :
    ∀ line ∈ cut.rest, Late p after line := by
  intro line hmem
  obtain ⟨first, more, hrest⟩ := List.append_of_mem hmem
  apply cut.late (cut.before ++ first) line more
  · rw [cut.split, hrest, List.append_assoc]
  · have hle := log.offsetOf_append_le cut.before first
    have hlo := cut.lo_eq
    omega

/-- A probe that finds nothing, or a line that is late, moves `hi` to the
probed offset. -/
def Cut.lowerHi {log : GCLogFile p} {after : Time} {lo hi : Nat}
    (cut : Cut log after lo hi) (mid : Nat)
    (hlate : ∀ first line more, log.events = first ++ line :: more →
      mid ≤ log.offsetOf first → Late p after line) : Cut log after lo mid :=
  { cut with late := hlate }

/-- A probe that finds an early line moves `lo` past it: every event up to
that line is at least as early. -/
def Cut.raiseLo {log : GCLogFile p} {after : Time} {lo hi : Nat}
    (cut : Cut log after lo hi) (first more : List (Line newline)) (line : Line newline)
    (hsplit : log.events = first ++ line :: more) (hearly : ∀ l ∈ first, Early p after l)
    (hline : Early p after line) :
    Cut log after (log.offsetOf first + line.text.length) hi where
  before := first ++ [line]
  rest := more
  split := by simp [hsplit]
  lo_eq := by
    simp only [offsetOf, joinLines_cons, joinLines_append, joinLines_nil,
      List.append_nil, List.length_append]
    omega
  early := by
    intro l hl
    rcases List.mem_append.mp hl with hfirst | hlast
    · exact hearly l hfirst
    · rw [List.mem_singleton.mp hlast]
      exact hline
  late := cut.late

theorem early_of_before {log : GCLogFile p} {after : Time}
    {first more : List (Line newline)} {line : Line newline}
    (hsplit : log.events = first ++ line :: more) {time : Time}
    (htime : stopTime p line.text = some time) (hlt : time < after) :
    ∀ l ∈ first, Early p after l := by
  intro l hl s hs
  have hordered := log.events_ordered
  rw [hsplit] at hordered
  have hle := (List.pairwise_append.mp hordered).2.2 l hl line (by simp) s hs time htime
  exact lt_of_le_of_lt hle hlt

theorem late_of_after {log : GCLogFile p} {after : Time}
    {first more : List (Line newline)} {line : Line newline}
    (hsplit : log.events = first ++ line :: more) {time : Time}
    (htime : stopTime p line.text = some time) (hle : after ≤ time) :
    ∀ l ∈ line :: more, Late p after l := by
  intro l hl t ht
  rcases List.mem_cons.mp hl with rfl | hmore
  · rw [htime] at ht
    cases ht
    exact hle
  · have hordered := log.events_ordered
    rw [hsplit] at hordered
    have htail := (List.pairwise_append.mp hordered).2.1
    exact hle.trans ((List.pairwise_cons.mp htail).1 l hmore time htime t ht)

def lines (log : GCLogFile p) : GCLogLines :=
  ⟨log.header, log.events, log.fragment, log.fragment_free⟩

/-- A search that starts from a cut ends, without error, at the boundary
between the early and the late events. -/
theorem searchOffset_of_cut (log : GCLogFile p) {f : Bytes} (hf : log.bytes <+: f)
    (after : Time) (lo hi : Nat) (cut : Cut log after lo hi) :
    ∃ before rest, log.events = before ++ rest ∧
      searchOffset p f log.bytes.length after lo hi = .ok (log.offsetOf before) ∧
      (∀ line ∈ before, Early p after line) ∧ ∀ line ∈ rest, Late p after line := by
  have hlines : log.lines.bytes = log.bytes := log.bytes_eq.symm
  rw [← hlines] at hf ⊢
  induction hmeasure : hi - lo using Nat.strong_induction_on generalizing lo hi with
  | h width ih =>
    rcases Nat.lt_or_ge lo hi with hlt | hge
    · have hstart : log.offsetOf [] ≤ (lo + hi) / 2 := by
        have hle := log.offsetOf_append_le [] cut.before
        have hlo := cut.lo_eq
        rw [List.nil_append] at hle
        omega
      rcases GCLogLines.probe_cases hf hstart with
        ⟨hread, hnone⟩ | ⟨first, line, more, hfirst, hread⟩
      · rw [searchOffset_eof p f _ after hlt hread]
        refine ih ((lo + hi) / 2 - lo) (by omega) lo ((lo + hi) / 2) ?_ rfl
        apply cut.lowerHi
        intro start late rest hevents hle
        have hearly : log.offsetOf start < (lo + hi) / 2 := hnone start late rest hevents
        omega
      · have hsplit : log.events = first ++ line :: more := hfirst.split
        have hmid : (lo + hi) / 2 ≤ log.offsetOf first := hfirst.from_pos
        have hmem : line ∈ log.events := by simp [hsplit]
        obtain ⟨time, htime⟩ := Option.isSome_iff_exists.mp (log.events_timed line hmem)
        rw [searchOffset_line p f _ after hlt hread
          (parseStopTime_of_stopTime htime (log.offsetOf first))]
        split
        · next hline =>
            refine ih (hi - (log.offsetOf first + line.text.length))
              (by simp only [Line.text_length]; omega) _ hi ?_ rfl
            apply cut.raiseLo first more line hsplit
            · exact early_of_before hsplit htime hline
            · intro t ht
              rw [htime] at ht
              cases ht
              exact hline
        · next hline =>
            refine ih ((lo + hi) / 2 - lo) (by omega) lo ((lo + hi) / 2) ?_ rfl
            apply cut.lowerHi
            intro start late rest hevents hle
            apply late_of_after hsplit htime (not_lt.mp hline)
            -- `line` is the first event from `mid` on, so `late` is not before it
            rcases place_cases (hsplit.symm.trans hevents) with
              ⟨-, rfl⟩ | ⟨between, hlater⟩ | ⟨between, hlater⟩
            · exact List.mem_cons_self
            · rw [hsplit, hlater, List.append_assoc] at hevents
              have hmore := List.append_cancel_left hevents
              rw [hmore]
              simp
            · have hearly : log.offsetOf start < (lo + hi) / 2 :=
                hfirst.before start late between hlater
              omega
    · exact ⟨cut.before, cut.rest, cut.split,
        (searchOffset_done p f _ after hge).trans (congrArg _ cut.lo_eq), cut.early,
        cut.rest_late hge⟩

/-- The interval `findOffsetAfter` starts from: no event before it, none of
the log at or past its end. -/
def fullCut (log : GCLogFile p) (after : Time) :
    Cut log after log.header.text.length log.bytes.length where
  before := []
  rest := log.events
  split := rfl
  lo_eq := by simp [offsetOf]
  early := by simp
  late := by
    intro first line more hsplit hle
    simp only [bytes_eq, hsplit, offsetOf, joinLines_cons, joinLines_append,
      List.length_append, Line.text_length] at hle
    omega

theorem open_eq (log : GCLogFile p) :
    openDotnetGCLog p log.bytes = .ok ⟨log.header.text, log.header.text.length⟩ := by
  have htake : takeLine newline log.bytes =
      some (log.header, joinLines log.events ++ log.fragment) := by
    rw [bytes, List.append_assoc]
    exact takeLine_text log.header _
  simp [openDotnetGCLog, readHeader, readBytes, htake, log.header_valid, bind,
    Except.bind, pure, Except.pure]

/-- Cutting the events at a boundary between early and late ones is the same
as filtering them. -/
theorem eventsAfter_eq (log : GCLogFile p) {after : Time}
    {before rest : List (Line newline)} (hsplit : log.events = before ++ rest)
    (hbefore : ∀ line ∈ before, Early p after line)
    (hrest : ∀ line ∈ rest, Late p after line) : log.eventsAfter after = rest := by
  have htimed (line : Line newline) (hmem : line ∈ log.events) :
      ∃ time, stopTime p line.text = some time :=
    Option.isSome_iff_exists.mp (log.events_timed line hmem)
  have hnone : before.filter (fun line =>
      (stopTime p line.text).any fun time => after ≤ time) = [] := by
    apply List.filter_eq_nil_iff.mpr
    intro line hmem
    obtain ⟨time, htime⟩ := htimed line (by simp [hsplit, hmem])
    have hlt := hbefore line hmem time htime
    simpa [htime] using hlt
  have hall : rest.filter (fun line =>
      (stopTime p line.text).any fun time => after ≤ time) = rest := by
    apply List.filter_eq_self.mpr
    intro line hmem
    obtain ⟨time, htime⟩ := htimed line (by simp [hsplit, hmem])
    have hle := hrest line hmem time htime
    simpa [htime] using hle
  rw [eventsAfter, hsplit, List.filter_append, hnone, hall, List.nil_append]

/-- Opening a well-formed log and copying from any instant succeeds and writes
the header and exactly the complete events at or after that instant. -/
theorem copyAfter_eq_filter (log : GCLogFile p) (after : Time) :
    ∃ d, openDotnetGCLog p log.bytes = .ok d ∧
      d.copyAfter p log.bytes log.bytes.length after Writer.buffer =
        (⟨log.header.text ++ joinLines (log.eventsAfter after), none⟩, none) := by
  refine ⟨_, log.open_eq, ?_⟩
  obtain ⟨before, rest, hsplit, hsearch, hbefore, hrest⟩ :=
    log.searchOffset_of_cut (List.prefix_refl _) after _ _ (log.fullCut after)
  have hrange : limitReader log.bytes (log.offsetOf before) log.bytes.length =
      joinLines rest ++ log.fragment := by
    rw [limitReader, List.take_length, bytes_eq, hsplit, offsetOf,
      ← List.cons_append, joinLines_append, List.append_assoc, List.drop_left]
  rw [log.eventsAfter_eq hsplit hbefore hrest]
  simp only [DotnetGCLog.copyAfter, DotnetGCLog.findOffsetAfter, hsearch, bind, Except.bind,
    pure, Except.pure, Writer.buffer, Writer.write_unbounded, List.nil_append, ↓reduceIte]
  rw [copyFromOffset_buffer _ _ _ _ (Nat.le_refl _), hrange,
    splitLines_unique rest log.fragment log.fragment_free]

/-- A reader of toy lines: `[0]` is a header, `[t]` an event that stops at
`t`. -/
def toyParsers : GCLogParsers where
  get
    | [0, _], "Platform" => some ".Net"
    | [1, _], "StopTime" => some "1"
    | [2, _], "StopTime" => some "2"
    | _, _ => none
  parseTime
    | "1" => .ok 1
    | "2" => .ok 2
    | _ => .error "no time"

def toyLog : GCLogFile toyParsers where
  header := ⟨[0], by decide⟩
  header_valid := rfl
  events := [⟨[1], by decide⟩, ⟨[2], by decide⟩, ⟨[2], by decide⟩]
  events_timed := by decide
  events_ordered := by decide
  fragment := [1]
  fragment_free := by decide

example : (toyLog.eventsAfter 2).map Line.body = [[2], [2]] := by decide

end GCLogFile

end YcAgent.Capture
