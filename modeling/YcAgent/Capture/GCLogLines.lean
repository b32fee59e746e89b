import YcAgent.Capture.DotnetGCLog

/-!
The lines of a .NET GC log without any assumption about their times, and the
binary search over them. The search keeps this much: `lo` is where the events
start or the end of an event that is too early, and the first event from `hi`
on, if there is one, is not too early and does not start before `lo`. `lo` may
pass `hi`, but never the event that `hi` leads to, so that `lo` is where that
event starts once the interval is empty.
-/

namespace YcAgent.Capture

open Lib.Lines Go

/-- The `StopTime` of a line, when it has one that parses. -/
def stopTime (p : GCLogParsers) (line : Bytes) : Option Time :=
  (p.get line "StopTime").bind fun value => (p.parseTime value).toOption

theorem parseStopTime_of_stopTime {p : GCLogParsers} {line : Bytes} {time : Time}
    (h : stopTime p line = some time) (offset : Nat) :
    parseStopTime p line offset = .ok time := by
  unfold stopTime at h
  unfold parseStopTime
  cases hget : p.get line "StopTime" with
  | none => simp [hget] at h
  | some value =>
    cases hparse : p.parseTime value with
    | error cause => simp [hget, hparse, Except.toOption] at h
    | ok found =>
      simp only [hget, Option.bind_some, hparse, Except.toOption,
        Option.some.injEq] at h
      simp [hparse, h]

theorem parseStopTime_error {p : GCLogParsers} {line : Bytes} {offset : Nat} {err : GCLogError}
    (h : parseStopTime p line offset = .error err) :
    stopTime p line = none ∧
      (err = .missingStopTime offset ∨ ∃ value cause,
        err = .unparseableStopTime offset value cause) := by
  unfold parseStopTime at h
  unfold stopTime
  cases hget : p.get line "StopTime" with
  | none =>
    rw [hget] at h
    cases h
    exact ⟨rfl, .inl rfl⟩
  | some value =>
    cases hparse : p.parseTime value with
    | error cause =>
      simp only [hget, hparse] at h
      cases h
      exact ⟨by simp [hparse, Except.toOption], .inr ⟨value, cause, rfl⟩⟩
    | ok time => simp [hget, hparse] at h

theorem stopTime_of_parseStopTime {p : GCLogParsers} {line : Bytes} {offset : Nat} {time : Time}
    (h : parseStopTime p line offset = .ok time) : stopTime p line = some time := by
  unfold parseStopTime at h
  unfold stopTime
  cases hget : p.get line "StopTime" with
  | none => simp [hget] at h
  | some value =>
    cases hparse : p.parseTime value with
    | error cause => simp [hget, hparse] at h
    | ok found =>
      simp only [hget, hparse, Except.ok.injEq] at h
      simp [hparse, Except.toOption, h]

/-- A header line, complete event lines and what has been written of the next
line. -/
structure GCLogLines where
  header : Line newline
  events : List (Line newline)
  fragment : Bytes
  fragment_free : newline ∉ fragment

namespace GCLogLines

variable (log : GCLogLines)

def bytes : Bytes := joinLines (log.header :: log.events) ++ log.fragment

/-- Where the event after `before` starts. -/
def offsetOf (before : List (Line newline)) : Nat := (joinLines (log.header :: before)).length

def opened : DotnetGCLog := ⟨log.header.text, log.header.text.length⟩

structure FirstFrom (pos : Nat) (first : List (Line newline)) (line : Line newline)
    (more : List (Line newline)) : Prop where
  split : log.events = first ++ line :: more
  from_pos : pos ≤ log.offsetOf first
  before : ∀ start early rest, first = start ++ early :: rest → log.offsetOf start < pos

theorem offsetOf_append (first second : List (Line newline)) :
    log.offsetOf (first ++ second) = log.offsetOf first + (joinLines second).length := by
  simp only [offsetOf, joinLines_cons, joinLines_append, List.length_append]
  omega

theorem offsetOf_concat (first : List (Line newline)) (line : Line newline) :
    log.offsetOf (first ++ [line]) = log.offsetOf first + line.text.length := by
  simp [offsetOf_append]

theorem offsetOf_lt (first more : List (Line newline)) (line : Line newline) :
    log.offsetOf first < log.offsetOf (first ++ line :: more) := by
  rw [offsetOf_append, joinLines_cons, List.length_append, Line.text_length]
  omega

/-- An offset tells which events are in front of it. -/
theorem offsetOf_injective {first second more rest : List (Line newline)}
    (h : first ++ more = second ++ rest) (heq : log.offsetOf first = log.offsetOf second) :
    first = second := by
  rcases List.append_eq_append_iff.mp h with ⟨between, hsecond, -⟩ | ⟨between, hfirst, -⟩
  · cases between with
    | nil => rw [hsecond, List.append_nil]
    | cons line between =>
      have hlt := log.offsetOf_lt first between line
      rw [← hsecond] at hlt
      omega
  · cases between with
    | nil => rw [hfirst, List.append_nil]
    | cons line between =>
      have hlt := log.offsetOf_lt second between line
      rw [← hfirst] at hlt
      omega

variable {log}

theorem FirstFrom.unique {pos : Nat} {first first' more more' : List (Line newline)}
    {line line' : Line newline} (h : log.FirstFrom pos first line more)
    (h' : log.FirstFrom pos first' line' more') : first = first' ∧ line = line' := by
  rcases place_cases (h.split.symm.trans h'.split) with
    hsame | ⟨between, hlater⟩ | ⟨between, hlater⟩
  · exact hsame
  · have hlt := h'.before first line between hlater
    have hle := h.from_pos
    omega
  · have hlt := h.before first' line' between hlater
    have hle := h'.from_pos
    omega

/-- From a later position on, the first event is the same or comes after the
end of the other. -/
theorem FirstFrom.later {pos pos' : Nat} {first first' more more' : List (Line newline)}
    {line line' : Line newline} (h : log.FirstFrom pos first line more)
    (h' : log.FirstFrom pos' first' line' more') (hpos : pos ≤ pos') :
    (first = first' ∧ line = line') ∨ log.offsetOf (first ++ [line]) ≤ log.offsetOf first' := by
  rcases place_cases (h.split.symm.trans h'.split) with
    hsame | ⟨between, hlater⟩ | ⟨between, hlater⟩
  · exact .inl hsame
  · right
    rw [hlater, offsetOf_concat, offsetOf_append, joinLines_cons, List.length_append]
    omega
  · have hlt := h.before first' line' between hlater
    have hle := h'.from_pos
    omega

/-- One probe of the search: past the header it finds the first event from the
probed offset on, or nothing if there is none. -/
theorem probe_cases {f : Bytes} (hf : log.bytes <+: f) {mid : Nat} (hmid : log.offsetOf [] ≤ mid) :
    (readLineAtOrAfter f mid log.bytes.length = .error .eof ∧
      ∀ first line more, log.events = first ++ line :: more → log.offsetOf first < mid) ∨
    ∃ first line more, log.FirstFrom mid first line more ∧
      readLineAtOrAfter f mid log.bytes.length = .ok (log.offsetOf first, line.text) := by
  have hread := readLineAtOrAfter_eq f mid log.bytes.length hf.length_le
  rw [← List.prefix_iff_eq_take.mp hf, bytes, splitLines_unique _ _ log.fragment_free,
    ← bytes] at hread
  cases hfound : firstLineFrom mid 0 (log.header :: log.events) with
  | none =>
    left
    rw [hfound] at hread
    refine ⟨hread, ?_⟩
    intro first line more hsplit
    have hlt := firstLineFrom_eq_none hfound (log.header :: first) more line
      (by simp [hsplit])
    simpa [offsetOf] using hlt
  | some found =>
    right
    obtain ⟨start, line⟩ := found
    rw [hfound] at hread
    obtain ⟨before, more, hsplit, hstart, hle, hearly⟩ := firstLineFrom_eq_some hfound
    cases before with
    | nil =>
      simp only [joinLines_nil, List.length_nil] at hstart
      simp only [offsetOf, joinLines_cons, joinLines_nil, List.append_nil,
        Line.text_length] at hmid
      omega
    | cons top first =>
      obtain ⟨htop, hevents⟩ := List.cons.inj hsplit
      subst htop
      rw [Nat.zero_add] at hstart
      refine ⟨first, line, more, ⟨hevents, ?_, ?_⟩, by rw [hread, hstart, offsetOf]⟩
      · rw [offsetOf, ← hstart]
        exact hle
      · intro begin early rest hfirst
        have hlt := hearly (log.header :: begin) early rest (by simp [hfirst])
        simpa [offsetOf] using hlt

variable {p : GCLogParsers} {after : Time}

def TooEarly (p : GCLogParsers) (after : Time) (line : Line newline) : Prop :=
  ∃ time, stopTime p line.text = some time ∧ time < after

def InTime (p : GCLogParsers) (after : Time) (line : Line newline) : Prop :=
  ∃ time, stopTime p line.text = some time ∧ after ≤ time

theorem TooEarly.not_inTime {line : Line newline} (h : TooEarly p after line) :
    ¬ InTime p after line := by
  rintro ⟨late, hlate, hle⟩
  obtain ⟨early, hearly, hlt⟩ := h
  rw [hearly, Option.some.injEq] at hlate
  rw [hlate] at hlt
  exact absurd hlt (not_lt.mpr hle)

/-- What the search keeps true of its interval, in whatever order the events
are. -/
structure Bracket (log : GCLogLines) (p : GCLogParsers) (after : Time) (lo hi : Nat) where
  before : List (Line newline)
  rest : List (Line newline)
  split : log.events = before ++ rest
  lo_eq : lo = log.offsetOf before
  last_early : ∀ line ∈ before.getLast?, TooEarly p after line
  hi_after : log.offsetOf [] ≤ hi
  next_inTime : ∀ first line more, log.FirstFrom hi first line more →
    lo ≤ log.offsetOf first ∧ InTime p after line

/-- Nothing starts at the probed offset or later, or an event in time does. -/
def Bracket.lowerHi {lo hi : Nat} (b : Bracket log p after lo hi) {mid : Nat} (hlo : lo ≤ mid)
    (hnext : ∀ first line more, log.FirstFrom mid first line more → InTime p after line) :
    Bracket log p after lo mid :=
  { b with
    hi_after := by
      have hstart := log.offsetOf_append [] b.before
      have hlo' := b.lo_eq
      rw [List.nil_append] at hstart
      omega
    next_inTime := by
      intro first line more hfirst
      exact ⟨hlo.trans hfirst.from_pos, hnext first line more hfirst⟩ }

/-- An early event moves `lo` to its end, which does not pass the event that `hi`
leads to, because that one is in time. -/
def Bracket.raiseLo {lo hi mid : Nat} (b : Bracket log p after lo hi) (hmid : mid ≤ hi)
    {first more : List (Line newline)} {line : Line newline}
    (hfirst : log.FirstFrom mid first line more) (hearly : TooEarly p after line) :
    Bracket log p after (log.offsetOf (first ++ [line])) hi where
  before := first ++ [line]
  rest := more
  split := by simp [hfirst.split]
  lo_eq := rfl
  last_early := by
    intro last hlast
    rw [List.getLast?_concat, Option.mem_some_iff] at hlast
    rwa [← hlast]
  hi_after := b.hi_after
  next_inTime := by
    intro first' line' more' hnext
    have hline := (b.next_inTime first' line' more' hnext).2
    rcases hfirst.later hnext hmid with ⟨-, rfl⟩ | hle
    · exact absurd hline hearly.not_inTime
    · exact ⟨hle, hline⟩

/-- The offset a search returns: the end of an early event or the start of the
events, and the start of an event in time or the end of the complete events. -/
structure Boundary (log : GCLogLines) (p : GCLogParsers) (after : Time) (offset : Nat) : Prop where
  from_events : log.header.text.length ≤ offset
  inside : offset ≤ log.bytes.length
  at_line : offset = log.header.text.length ∨ log.bytes[offset - 1]? = some newline
  ends_early : ∀ first line more, log.events = first ++ line :: more →
    log.offsetOf first + line.text.length = offset → TooEarly p after line
  starts_inTime : ∀ first line more, log.events = first ++ line :: more →
    log.offsetOf first = offset → InTime p after line

theorem bytes_eq_append {before rest : List (Line newline)} (h : log.events = before ++ rest) :
    log.bytes = joinLines (log.header :: before) ++ (joinLines rest ++ log.fragment) := by
  rw [bytes, h, ← List.cons_append, joinLines_append, List.append_assoc]

theorem Bracket.boundary {lo hi : Nat} (b : Bracket log p after lo hi) (hdone : hi ≤ lo) :
    log.Boundary p after lo where
  from_events := by
    have hstart := log.offsetOf_append [] b.before
    have hlo := b.lo_eq
    rw [List.nil_append] at hstart
    simp only [offsetOf, joinLines_cons, joinLines_nil, List.append_nil] at hstart hlo
    omega
  inside := by
    have hlo := b.lo_eq
    rw [offsetOf] at hlo
    rw [bytes_eq_append b.split, List.length_append]
    omega
  at_line := by
    right
    have hne : joinLines (log.header :: b.before) ≠ [] := by simp [Line.text]
    obtain ⟨body, hbody⟩ := joinLines_getLast hne
    have hlo : lo - 1 = body.length := by
      rw [b.lo_eq, offsetOf, hbody, List.length_append, List.length_singleton]
      omega
    rw [bytes_eq_append b.split, hbody, hlo]
    simp
  ends_early := by
    intro first line more hsplit hend
    have hsame : first ++ [line] = b.before := by
      have hevents : (first ++ [line]) ++ more = b.before ++ b.rest := by
        rw [← b.split, hsplit, List.append_assoc, List.singleton_append]
      apply log.offsetOf_injective hevents
      exact (log.offsetOf_concat first line).trans (hend.trans b.lo_eq)
    apply b.last_early
    rw [← hsame, List.getLast?_concat]
    rfl
  starts_inTime := by
    intro first line more hsplit hstart
    rcases probe_cases (List.prefix_refl log.bytes) b.hi_after with
      ⟨-, hnone⟩ | ⟨first', line', more', hnext, -⟩
    · have hlt := hnone first line more hsplit
      omega
    · obtain ⟨hle, hline⟩ := b.next_inTime first' line' more' hnext
      rcases place_cases (hsplit.symm.trans hnext.split) with
        ⟨-, rfl⟩ | ⟨between, hlater⟩ | ⟨between, hlater⟩
      · exact hline
      · have hlt := hnext.before first line between hlater
        omega
      · have hlt := log.offsetOf_lt first' between line'
        rw [← hlater] at hlt
        omega

def fullBracket (log : GCLogLines) (p : GCLogParsers) (after : Time) :
    Bracket log p after log.header.text.length log.bytes.length where
  before := []
  rest := log.events
  split := rfl
  lo_eq := by simp [offsetOf]
  last_early := by simp
  hi_after := by
    simp only [bytes, offsetOf, joinLines_cons, joinLines_nil, List.append_nil, List.length_append]
    omega
  next_inTime := by
    intro first line more hfirst
    have hlt := log.offsetOf_lt first more line
    have hle := hfirst.from_pos
    rw [bytes, List.length_append, ← offsetOf, hfirst.split] at hle
    omega

/-- Why a search fails: it met an event without a time. -/
def BadEvent (log : GCLogLines) (p : GCLogParsers) (err : GCLogError) : Prop :=
  ∃ line ∈ log.events, stopTime p line.text = none ∧ ∃ offset,
    err = .missingStopTime offset ∨ ∃ value cause, err = .unparseableStopTime offset value cause

/-- The search ends at a boundary or at an event without a time, from any
interval that keeps the bracket. -/
theorem searchOffset_of_bracket {f : Bytes} (hf : log.bytes <+: f) (lo hi : Nat)
    (b : Bracket log p after lo hi) :
    match searchOffset p f log.bytes.length after lo hi with
    | .ok offset => log.Boundary p after offset
    | .error err => log.BadEvent p err := by
  induction hmeasure : hi - lo using Nat.strong_induction_on generalizing lo hi with
  | h width ih =>
    rcases Nat.lt_or_ge lo hi with hlt | hge
    · have hmid : log.offsetOf [] ≤ (lo + hi) / 2 := by
        have hstart := log.offsetOf_append [] b.before
        have hlo := b.lo_eq
        rw [List.nil_append] at hstart
        omega
      rcases probe_cases hf hmid with ⟨hread, hnone⟩ | ⟨first, line, more, hfirst, hread⟩
      · rw [searchOffset_eof p f _ after hlt hread]
        refine ih ((lo + hi) / 2 - lo) (by omega) lo ((lo + hi) / 2) ?_ rfl
        apply b.lowerHi (by omega)
        intro first line more hfirst
        have hearly := hnone first line more hfirst.split
        have hle := hfirst.from_pos
        omega
      · cases hparse : parseStopTime p line.text (log.offsetOf first) with
        | error err =>
          rw [searchOffset_bad p f _ after hlt hread hparse]
          obtain ⟨hnone, hkind⟩ := parseStopTime_error hparse
          exact ⟨line, by simp [hfirst.split], hnone, _, hkind⟩
        | ok time =>
          have htime := stopTime_of_parseStopTime hparse
          rw [searchOffset_line p f _ after hlt hread hparse]
          by_cases hline : time < after
          · rw [if_pos hline, ← offsetOf_concat]
            have hstart := hfirst.from_pos
            have hend := log.offsetOf_concat first line
            rw [Line.text_length] at hend
            exact ih (hi - log.offsetOf (first ++ [line])) (by omega) _ hi
              (b.raiseLo (by omega) hfirst ⟨time, htime, hline⟩) rfl
          · rw [if_neg hline]
            refine ih ((lo + hi) / 2 - lo) (by omega) lo ((lo + hi) / 2) ?_ rfl
            apply b.lowerHi (by omega)
            intro first' line' more' hnext
            obtain ⟨-, rfl⟩ := hfirst.unique hnext
            exact ⟨time, htime, not_lt.mp hline⟩
    · rw [searchOffset_done p f _ after hge]
      exact b.boundary hge

/-- On a log whose events are in any order, with any times, and which goes on
growing by `appended`, the search returns a boundary of the log as it was at the
`Stat`, or a parse error if some event has no time. -/
theorem findOffsetAfter_boundary (log : GCLogLines) (p : GCLogParsers) (after : Time)
    (appended : Bytes) :
    match log.opened.findOffsetAfter p (log.bytes ++ appended) log.bytes.length after with
    | .ok (fileSize, offset) => fileSize = log.bytes.length ∧ log.Boundary p after offset
    | .error err => log.BadEvent p err := by
  have hsearch := searchOffset_of_bracket (List.prefix_append log.bytes appended) _ _
    (log.fullBracket p after)
  rw [DotnetGCLog.findOffsetAfter, opened]
  cases hresult : searchOffset p (log.bytes ++ appended) log.bytes.length after
      log.header.text.length log.bytes.length with
  | error err =>
    rw [hresult] at hsearch
    exact hsearch
  | ok offset =>
    rw [hresult] at hsearch
    exact ⟨rfl, hsearch⟩

end GCLogLines

end YcAgent.Capture
