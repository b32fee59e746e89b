import Mathlib.Tactic
import Mathlib.Data.List.Basic

/-!
Terminated lines in a finite sequence. A `Line` carries the proof that its
body has no terminator, so a file made of complete lines is a list of `Line`s
and an unterminated fragment is a list free of the terminator. Every sequence
splits in exactly one way into complete lines and a fragment.

Nothing here depends on bytes: the terminator is an arbitrary element of an
arbitrary type with decidable equality.
-/

namespace YcAgent.Lib.Lines

variable {α : Type*}

structure Line (nl : α) where
  body : List α
  body_free : nl ∉ body

def Line.text {nl : α} (line : Line nl) : List α := line.body ++ [nl]

def joinLines {nl : α} (lines : List (Line nl)) : List α :=
  (lines.map Line.text).flatten

@[ext] theorem Line.ext {nl : α} {left right : Line nl}
    (h : left.body = right.body) : left = right := by
  cases left
  cases right
  cases h
  rfl

instance {nl : α} [DecidableEq α] : DecidableEq (Line nl) := fun left right =>
  decidable_of_iff (left.body = right.body) ⟨Line.ext, congrArg Line.body⟩

@[simp] theorem Line.text_length {nl : α} (line : Line nl) :
    line.text.length = line.body.length + 1 := by
  simp [Line.text]

@[simp] theorem joinLines_nil {nl : α} :
    joinLines ([] : List (Line nl)) = [] := rfl

@[simp] theorem joinLines_cons {nl : α} (line : Line nl) (rest : List (Line nl)) :
    joinLines (line :: rest) = line.text ++ joinLines rest := rfl

@[simp] theorem joinLines_append {nl : α} (first second : List (Line nl)) :
    joinLines (first ++ second) = joinLines first ++ joinLines second := by
  simp [joinLines]

theorem text_length_le_joinLines {nl : α} {lines : List (Line nl)} {line : Line nl}
    (h : line ∈ lines) : line.text.length ≤ (joinLines lines).length :=
  (List.sublist_flatten_of_mem (List.mem_map_of_mem h)).length_le

theorem joinLines_getLast {nl : α} {lines : List (Line nl)} (h : joinLines lines ≠ []) :
    ∃ body, joinLines lines = body ++ [nl] := by
  cases lines using List.reverseRecOn with
  | nil => exact absurd rfl h
  | append_singleton first line =>
    exact ⟨joinLines first ++ line.body, by simp [joinLines_append, Line.text]⟩

/-- Two places in one list are the same, or one of them is in front of the
other. -/
theorem place_cases {first second more rest : List α} {a b : α}
    (h : first ++ a :: more = second ++ b :: rest) :
    (first = second ∧ a = b) ∨ (∃ between, second = first ++ a :: between) ∨
      ∃ between, first = second ++ b :: between := by
  rcases List.append_eq_append_iff.mp h with ⟨between, hsecond, hmore⟩ | ⟨between, hfirst, hrest⟩
  · cases between with
    | nil =>
      left
      rw [List.append_nil] at hsecond
      exact ⟨hsecond.symm, (List.cons.inj hmore).1⟩
    | cons c between =>
      right; left
      obtain ⟨rfl, _⟩ := List.cons.inj hmore
      exact ⟨between, hsecond⟩
  · cases between with
    | nil =>
      left
      rw [List.append_nil] at hfirst
      exact ⟨hfirst, (List.cons.inj hrest).1.symm⟩
    | cons c between =>
      right; right
      obtain ⟨rfl, _⟩ := List.cons.inj hrest
      exact ⟨between, hfirst⟩

def Line.cons {nl : α} (a : α) (h : a ≠ nl) (line : Line nl) : Line nl :=
  ⟨a :: line.body, by simpa using ⟨Ne.symm h, line.body_free⟩⟩

@[simp] theorem Line.cons_text {nl : α} (a : α) (h : a ≠ nl) (line : Line nl) :
    (line.cons a h).text = a :: line.text := rfl

/-- An unterminated fragment in front of a line makes one longer line. -/
def Line.prepend {nl : α} (front : List α) (h : nl ∉ front) (line : Line nl) : Line nl :=
  ⟨front ++ line.body, by simpa using ⟨h, line.body_free⟩⟩

@[simp] theorem Line.prepend_text {nl : α} (front : List α) (h : nl ∉ front)
    (line : Line nl) : (line.prepend front h).text = front ++ line.text := by
  simp [Line.prepend, Line.text]

section Split

variable [DecidableEq α]

def takeLine (nl : α) : List α → Option (Line nl × List α)
  | [] => none
  | a :: rest =>
    if h : a = nl then some (⟨[], by simp⟩, rest)
    else (takeLine nl rest).map fun found => (found.1.cons a h, found.2)

/-- All complete lines of a sequence and the unterminated rest. -/
def splitLines (nl : α) : List α → List (Line nl) × List α
  | [] => ([], [])
  | a :: rest =>
    if h : a = nl then (⟨[], by simp⟩ :: (splitLines nl rest).1, (splitLines nl rest).2)
    else
      match (splitLines nl rest).1 with
      | [] => ([], a :: (splitLines nl rest).2)
      | line :: more => (line.cons a h :: more, (splitLines nl rest).2)

/-- The length of the part of a sequence that consists of complete lines. -/
def completeLength (nl : α) (s : List α) : Nat :=
  (joinLines (splitLines nl s).1).length

theorem takeLine_eq_none {nl : α} {s : List α} (h : nl ∉ s) :
    takeLine nl s = none := by
  induction s with
  | nil => rfl
  | cons a rest ih =>
    have hne : a ≠ nl := fun heq => h (by simp [heq])
    have hrest : nl ∉ rest := fun hmem => h (by simp [hmem])
    simp [takeLine, hne, ih hrest]

theorem takeLine_append {nl : α} {front : List α} (hfront : nl ∉ front) (s : List α) :
    takeLine nl (front ++ s) =
      (takeLine nl s).map fun found => (found.1.prepend front hfront, found.2) := by
  induction front with
  | nil =>
    rw [List.nil_append]
    cases takeLine nl s with
    | none => rfl
    | some found => rfl
  | cons a front ih =>
    have hne : a ≠ nl := fun heq => hfront (by simp [heq])
    have hrest : nl ∉ front := fun hmem => hfront (by simp [hmem])
    rw [List.cons_append, takeLine, dif_neg hne, ih hrest, Option.map_map]
    rfl

theorem takeLine_cases {nl : α} (s : List α) :
    (nl ∉ s ∧ takeLine nl s = none) ∨
      ∃ line rest, s = line.text ++ rest ∧ takeLine nl s = some (line, rest) := by
  induction s with
  | nil => exact .inl ⟨List.not_mem_nil, rfl⟩
  | cons a s ih =>
    by_cases heq : a = nl
    · subst heq
      exact .inr ⟨⟨[], List.not_mem_nil⟩, s, rfl, by simp [takeLine]⟩
    · rcases ih with ⟨hfree, hnone⟩ | ⟨line, rest, rfl, hsome⟩
      · left
        simp [takeLine, heq, hnone, hfree, Ne.symm heq]
      · right
        exact ⟨line.cons a heq, rest, rfl, by simp [takeLine, heq, hsome]⟩

theorem takeLine_text {nl : α} (line : Line nl) (rest : List α) :
    takeLine nl (line.text ++ rest) = some (line, rest) := by
  obtain ⟨body, hfree⟩ := line
  induction body with
  | nil => simp [takeLine, Line.text]
  | cons a body ih =>
    have hne : a ≠ nl := fun heq => hfree (by simp [heq])
    have hbody : nl ∉ body := fun hmem => hfree (by simp [hmem])
    have hrec := ih hbody
    simp only [Line.text, List.cons_append] at hrec ⊢
    simp only [takeLine, hne, ↓reduceDIte, hrec, Option.map_some]
    rfl

theorem takeLine_join {nl : α} (lines : List (Line nl)) (tail : List α)
    (htail : nl ∉ tail) :
    takeLine nl (joinLines lines ++ tail) =
      match lines with
      | [] => none
      | line :: rest => some (line, joinLines rest ++ tail) := by
  cases lines with
  | nil => simpa using takeLine_eq_none htail
  | cons line rest =>
    simp only [joinLines_cons, List.append_assoc]
    exact takeLine_text line _

theorem splitLines_tail_free (nl : α) (s : List α) :
    nl ∉ (splitLines nl s).2 := by
  induction s with
  | nil => simp [splitLines]
  | cons a rest ih =>
    simp only [splitLines]
    split
    · exact ih
    · next hne =>
        split
        · simpa using ⟨Ne.symm hne, ih⟩
        · exact ih

theorem splitLines_join (nl : α) (s : List α) :
    joinLines (splitLines nl s).1 ++ (splitLines nl s).2 = s := by
  induction s with
  | nil => rfl
  | cons a rest ih =>
    simp only [splitLines]
    split
    · next heq => simp [Line.text, heq, ih]
    · next hne =>
        split
        · next hnil =>
            rw [hnil] at ih
            simpa using ih
        · next line more hcons =>
            rw [hcons] at ih
            simpa using ih

theorem splitLines_of_free {nl : α} {s : List α} (h : nl ∉ s) :
    splitLines nl s = ([], s) := by
  induction s with
  | nil => rfl
  | cons a rest ih =>
    have hne : a ≠ nl := fun heq => h (by simp [heq])
    have hrest : nl ∉ rest := fun hmem => h (by simp [hmem])
    simp [splitLines, hne, ih hrest]

theorem splitLines_text {nl : α} (line : Line nl) (rest : List α) :
    splitLines nl (line.text ++ rest) =
      (line :: (splitLines nl rest).1, (splitLines nl rest).2) := by
  obtain ⟨body, hfree⟩ := line
  induction body with
  | nil => simp [splitLines, Line.text]
  | cons a body ih =>
    have hne : a ≠ nl := fun heq => hfree (by simp [heq])
    have hbody : nl ∉ body := fun hmem => hfree (by simp [hmem])
    have hrec := ih hbody
    simp only [Line.text, List.cons_append] at hrec ⊢
    simp only [splitLines, hne, ↓reduceDIte, hrec]
    rfl

/-- The split is the only way to read a sequence as complete lines followed
by a fragment. -/
theorem splitLines_unique {nl : α} (lines : List (Line nl)) (tail : List α)
    (htail : nl ∉ tail) :
    splitLines nl (joinLines lines ++ tail) = (lines, tail) := by
  induction lines with
  | nil => simpa using splitLines_of_free htail
  | cons line rest ih =>
    simp only [joinLines_cons, List.append_assoc, splitLines_text, ih]

theorem splitLines_join_append {nl : α} (lines : List (Line nl)) (rest : List α) :
    splitLines nl (joinLines lines ++ rest) =
      (lines ++ (splitLines nl rest).1, (splitLines nl rest).2) := by
  induction lines with
  | nil => rfl
  | cons line lines ih =>
    rw [joinLines_cons, List.append_assoc, splitLines_text, ih, List.cons_append]

/-- The complete lines of a part that is there already are lines of the whole. -/
theorem splitLines_of_front {nl : α} {s : List α} {lines : List (Line nl)}
    (h : s <+: joinLines lines) : (splitLines nl s).1 <+: lines := by
  obtain ⟨more, hmore⟩ := h
  have hwhole := splitLines_unique lines [] List.not_mem_nil
  rw [List.append_nil, ← hmore, ← splitLines_join nl s, List.append_assoc,
    splitLines_join_append] at hwhole
  exact ⟨_, congrArg Prod.fst hwhole⟩

theorem completeLength_join {nl : α} (lines : List (Line nl)) (tail : List α)
    (htail : nl ∉ tail) :
    completeLength nl (joinLines lines ++ tail) = (joinLines lines).length := by
  simp [completeLength, splitLines_unique lines tail htail]

theorem completeLength_le (nl : α) (s : List α) : completeLength nl s ≤ s.length := by
  have h := congrArg List.length (splitLines_join nl s)
  simp only [List.length_append] at h
  unfold completeLength
  omega

theorem take_completeLength (nl : α) (s : List α) :
    s.take (completeLength nl s) = joinLines (splitLines nl s).1 := by
  have h := congrArg (List.take (completeLength nl s)) (splitLines_join nl s)
  rw [← h]
  simp [completeLength]

theorem completeLength_append_of_free {nl : α} (first : List α) {second : List α}
    (h : nl ∉ second) :
    completeLength nl (first ++ second) = completeLength nl first := by
  have hfirst := splitLines_join nl first
  have htail : nl ∉ (splitLines nl first).2 ++ second := by
    simpa using ⟨splitLines_tail_free nl first, h⟩
  calc
    completeLength nl (first ++ second)
      = completeLength nl (joinLines (splitLines nl first).1 ++
          ((splitLines nl first).2 ++ second)) := by
            rw [← List.append_assoc, hfirst]
    _ = completeLength nl first := completeLength_join _ _ htail

theorem completeLength_append_of_mem {nl : α} (first : List α) {second : List α}
    (h : nl ∈ second) :
    completeLength nl (first ++ second) = first.length + completeLength nl second := by
  have hfirst := splitLines_join nl first
  have hsecond := splitLines_join nl second
  cases hlines : (splitLines nl second).1 with
  | nil =>
    rw [hlines] at hsecond
    have hfree := splitLines_tail_free nl second
    rw [show (splitLines nl second).2 = second by simpa using hsecond] at hfree
    exact absurd h hfree
  | cons line more =>
    let joined := line.prepend (splitLines nl first).2 (splitLines_tail_free nl first)
    have hjoin : first ++ second =
        joinLines ((splitLines nl first).1 ++ joined :: more) ++
          (splitLines nl second).2 := by
      conv_lhs => rw [← hfirst, ← hsecond, hlines]
      simp [joined]
    have hlength := congrArg List.length hfirst
    simp only [List.length_append] at hlength
    rw [hjoin, completeLength_join _ _ (splitLines_tail_free nl second)]
    unfold completeLength
    simp only [hlines, joinLines_append, joinLines_cons, List.length_append, joined,
      Line.prepend_text]
    omega

/-- A fragment in front of a text with a newline belongs to its first line. -/
theorem joinLines_splitLines_append {nl : α} (first : List α) {second : List α} (h : nl ∈ second) :
    joinLines (splitLines nl (first ++ second)).1 =
      first ++ joinLines (splitLines nl second).1 := by
  rw [← take_completeLength, completeLength_append_of_mem first h, List.take_length_add_append,
    take_completeLength]

theorem joinLines_splitLines_of_end {nl : α} {s : List α}
    (h : s = [] ∨ ∃ front, s = front ++ [nl]) : joinLines (splitLines nl s).1 = s := by
  rcases h with rfl | ⟨front, rfl⟩
  · rfl
  · have hjoin := joinLines_splitLines_append front (List.mem_singleton_self nl)
    rw [hjoin]
    simp [splitLines, Line.text]

theorem completeLength_cases (nl : α) (s : List α) :
    (nl ∉ s ∧ completeLength nl s = 0) ∨
      ∃ front back, s = front ++ nl :: back ∧ nl ∉ back ∧
        completeLength nl s = front.length + 1 := by
  have hsplit := splitLines_join nl s
  have hfree := splitLines_tail_free nl s
  rcases eq_or_ne (joinLines (splitLines nl s).1) [] with hnone | hsome
  · left
    rw [hnone, List.nil_append] at hsplit
    rw [hsplit] at hfree
    rw [completeLength, hnone]
    exact ⟨hfree, rfl⟩
  · right
    obtain ⟨front, hfront⟩ := joinLines_getLast hsome
    refine ⟨front, (splitLines nl s).2, ?_, hfree, ?_⟩
    · calc
        s = joinLines (splitLines nl s).1 ++ (splitLines nl s).2 := hsplit.symm
        _ = front ++ nl :: (splitLines nl s).2 := by rw [hfront, List.append_assoc]; rfl
    · rw [completeLength, hfront, List.length_append]
      rfl

/-- The complete lines of a sequence, by where they stand in it: at its start or
behind a terminator. -/
theorem line_at_iff {nl : α} {s : List α} {start : Nat} {line : Line nl} :
    (∃ before after, (splitLines nl s).1 = before ++ line :: after ∧
      (joinLines before).length = start) ↔
      ∃ front back, s = front ++ line.text ++ back ∧ front.length = start ∧
        (front = [] ∨ ∃ body, front = body ++ [nl]) := by
  constructor
  · rintro ⟨before, after, hlines, rfl⟩
    refine ⟨joinLines before, joinLines after ++ (splitLines nl s).2, ?_, rfl, ?_⟩
    · conv_lhs => rw [← splitLines_join nl s, hlines]
      simp
    · rcases eq_or_ne (joinLines before) [] with hnil | hne
      · exact .inl hnil
      · exact .inr (joinLines_getLast hne)
  · rintro ⟨front, back, rfl, rfl, hfront⟩
    have hjoin := joinLines_splitLines_of_end hfront
    refine ⟨(splitLines nl front).1, (splitLines nl back).1, ?_, by rw [hjoin]⟩
    conv_lhs => rw [← hjoin]
    rw [List.append_assoc, splitLines_join_append, splitLines_text]

end Split

section Offsets

variable {nl : α}

/-- The first line that starts at or after `offset`, together with its start,
among lines laid out from position `pos` on. -/
def firstLineFrom (offset : Nat) : Nat → List (Line nl) → Option (Nat × Line nl)
  | _, [] => none
  | pos, line :: rest =>
    if offset ≤ pos then some (pos, line)
    else firstLineFrom offset (pos + line.text.length) rest

theorem firstLineFrom_at_start {offset pos : Nat} (h : offset ≤ pos)
    (lines : List (Line nl)) :
    firstLineFrom offset pos lines = lines.head?.map fun line => (pos, line) := by
  cases lines with
  | nil => rfl
  | cons line rest => simp [firstLineFrom, h]

theorem firstLineFrom_shift (offset pos shift : Nat) (lines : List (Line nl)) :
    firstLineFrom (offset + shift) (pos + shift) lines =
      (firstLineFrom offset pos lines).map fun found => (found.1 + shift, found.2) := by
  induction lines generalizing pos with
  | nil => rfl
  | cons line rest ih =>
    simp only [firstLineFrom, Nat.add_le_add_iff_right]
    split
    · rfl
    · rw [← ih]
      congr 1
      omega

/-- A found line splits the list: its start is where the lines before it end,
and each of those starts too early. -/
theorem firstLineFrom_eq_some {offset pos start : Nat} {line : Line nl}
    {lines : List (Line nl)} (h : firstLineFrom offset pos lines = some (start, line)) :
    ∃ before after, lines = before ++ line :: after ∧
      start = pos + (joinLines before).length ∧ offset ≤ start ∧
      ∀ first early rest, before = first ++ early :: rest →
        pos + (joinLines first).length < offset := by
  induction lines generalizing pos with
  | nil => simp [firstLineFrom] at h
  | cons head rest ih =>
    simp only [firstLineFrom] at h
    split at h
    · next hle =>
        simp only [Option.some.injEq, Prod.mk.injEq] at h
        obtain ⟨rfl, rfl⟩ := h
        exact ⟨[], rest, by simp, by simp, hle, by simp⟩
    · next hlt =>
        obtain ⟨before, after, hsplit, hstart, hle, hearly⟩ := ih h
        refine ⟨head :: before, after, by simp [hsplit], ?_, hle, ?_⟩
        · simp only [joinLines_cons, List.length_append]
          omega
        · intro first early more hbefore
          cases first with
          | nil => simpa using hlt
          | cons top first =>
            obtain ⟨rfl, hrest⟩ := List.cons.inj hbefore
            have hrec := hearly first early more hrest
            simp only [joinLines_cons, List.length_append]
            omega

theorem firstLineFrom_eq_none {offset pos : Nat} {lines : List (Line nl)}
    (h : firstLineFrom offset pos lines = none) (before after : List (Line nl))
    (line : Line nl) (hsplit : lines = before ++ line :: after) :
    pos + (joinLines before).length < offset := by
  induction lines generalizing pos before with
  | nil => simp at hsplit
  | cons first rest ih =>
    simp only [firstLineFrom] at h
    split at h
    · cases h
    · next hlt =>
        cases before with
        | nil => simpa using hlt
        | cons head before =>
          obtain ⟨rfl, hrest⟩ := List.cons.inj hsplit
          have hrec := ih h before hrest
          simp only [joinLines_cons, List.length_append]
          omega

/-- Lines that start at one place are one line, and a line that starts earlier
stands among those before. -/
theorem place_of_starts {lines before before' after after' : List (Line nl)} {line line' : Line nl}
    (h : lines = before ++ line :: after) (h' : lines = before' ++ line' :: after')
    (hle : (joinLines before').length ≤ (joinLines before).length) :
    (before' = before ∧ line' = line) ∨ ∃ between, before = before' ++ line' :: between := by
  rcases place_cases (h.symm.trans h') with ⟨rfl, rfl⟩ | ⟨between, rfl⟩ | hearlier
  · exact .inl ⟨rfl, rfl⟩
  · simp only [joinLines_append, joinLines_cons, List.length_append, Line.text_length] at hle
    omega
  · exact .inr hearlier

/-- Reading forward from the element before `offset`: the rest of the line
that holds it is skipped, and the next complete line is the first one that
starts at or after `offset`. -/
theorem takeLine_drop_join [DecidableEq α] (lines : List (Line nl)) (tail : List α)
    (htail : nl ∉ tail) (k : Nat) :
    match takeLine nl ((joinLines lines ++ tail).drop k) with
    | none => firstLineFrom (k + 1) 0 lines = none
    | some (skipped, rest) =>
      firstLineFrom (k + 1) 0 lines =
        (takeLine nl rest).map fun found => (k + skipped.text.length, found.1) := by
  induction lines generalizing k with
  | nil =>
    have hfree : nl ∉ tail.drop k := fun hmem => htail (List.mem_of_mem_drop hmem)
    simp [takeLine_eq_none hfree, firstLineFrom]
  | cons line rest ih =>
    by_cases hk : k < line.text.length
    · have hle : k ≤ line.body.length := by
        simp only [Line.text_length] at hk
        omega
      let skipped : Line nl :=
        ⟨line.body.drop k, fun hmem => line.body_free (List.mem_of_mem_drop hmem)⟩
      have hdrop : (joinLines (line :: rest) ++ tail).drop k =
          skipped.text ++ (joinLines rest ++ tail) := by
        simp [Line.text, skipped, List.drop_append_of_le_length hle]
      have hlength : k + skipped.text.length = line.text.length := by
        simp only [Line.text_length, skipped, List.length_drop]
        omega
      rw [hdrop, takeLine_text]
      simp only [firstLineFrom, takeLine_join rest tail htail, hlength]
      rw [if_neg (by omega), Nat.zero_add, firstLineFrom_at_start (by omega)]
      cases rest <;> rfl
    · obtain ⟨j, rfl⟩ : ∃ j, k = j + line.text.length :=
        ⟨k - line.text.length, by omega⟩
      have hdrop : (joinLines (line :: rest) ++ tail).drop (j + line.text.length) =
          (joinLines rest ++ tail).drop j := by
        rw [joinLines_cons, List.append_assoc, Nat.add_comm, ← List.drop_drop,
          List.drop_left]
      have hshift : firstLineFrom (j + line.text.length + 1) 0 (line :: rest) =
          (firstLineFrom (j + 1) 0 rest).map
            fun found => (found.1 + line.text.length, found.2) := by
        rw [← firstLineFrom_shift]
        simp only [firstLineFrom]
        rw [if_neg (by omega)]
        congr 1
        omega
      have hrec := ih j
      rw [hdrop, hshift]
      cases htake : takeLine nl ((joinLines rest ++ tail).drop j) with
      | none =>
        simp only [htake] at hrec
        simp [hrec]
      | some found =>
        simp only [htake] at hrec
        simp only [hrec, Option.map_map]
        congr 1
        funext next
        simp only [Function.comp_apply, Prod.mk.injEq, and_true]
        omega

end Offsets

end YcAgent.Lib.Lines
