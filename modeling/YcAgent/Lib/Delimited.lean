import Mathlib.Data.List.DropRight

/-!
Sequences whose fields are kept apart by a separator: what is left of one after
its outer separators are trimmed, the trim of two that are joined, and when
there is an empty field in the result. A word can keep the fields apart as well;
if no part of it is both its beginning and its end, a join can be split again.
-/

namespace YcAgent.Lib.Delimited

variable {α : Type*} [DecidableEq α] (sep : α)

/-- The sequence without the separators at its two ends. -/
def trim (s : List α) : List α := (s.dropWhile (· = sep)).rdropWhile (· = sep)

/-- The fields of a sequence; the empty one has none. -/
def fields (s : List α) : List (List α) := if s = [] then [] else s.splitOn sep

variable {sep}

@[simp] theorem trim_nil : trim sep [] = [] := rfl

@[simp] theorem trim_cons_sep (s : List α) : trim sep (sep :: s) = trim sep s := by
  simp [trim]

omit [DecidableEq α] in
private theorem rdropWhile_append (p : α → Bool) (s t : List α) :
    (s ++ t).rdropWhile p =
      if t.rdropWhile p = [] then s.rdropWhile p else s ++ t.rdropWhile p := by
  simp only [List.rdropWhile, List.reverse_append, List.dropWhile_append, List.isEmpty_iff,
    List.reverse_eq_nil_iff]
  split
  · rfl
  · rw [List.reverse_append, List.reverse_reverse]

theorem head?_trim_ne (s : List α) : (trim sep s).head? ≠ some sep := by
  intro hhead
  have hstart := List.head?_dropWhile_not (· = sep) s
  obtain ⟨ending, hfront⟩ : trim sep s <+: s.dropWhile (· = sep) := List.rdropWhile_prefix _ _
  have hne : trim sep s ≠ [] := fun hnil => by simp [hnil] at hhead
  have hsame : (s.dropWhile (· = sep)).head? = some sep := by
    rw [← hfront, List.head?_append_of_ne_nil _ hne]
    exact hhead
  simp [hsame] at hstart

theorem getLast?_trim_ne (s : List α) : (trim sep s).getLast? ≠ some sep := by
  intro hlast
  have hne : trim sep s ≠ [] := fun hnil => by simp [hnil] at hlast
  rw [List.getLast?_eq_some_getLast hne] at hlast
  exact List.rdropWhile_last_not _ _ hne (decide_eq_true (Option.some.inj hlast))

private theorem dropWhile_eq_self {s : List α} (h : s.head? ≠ some sep) :
    s.dropWhile (· = sep) = s := by
  cases s with
  | nil => rfl
  | cons x s =>
    have hx : ¬ x = sep := by simpa using h
    simp [hx]

private theorem rdropWhile_eq_self {s : List α} (h : s.getLast? ≠ some sep) :
    s.rdropWhile (· = sep) = s := by
  rw [List.rdropWhile, dropWhile_eq_self (by rwa [List.head?_reverse]), List.reverse_reverse]

/-- Only the separators at the end count once something else has been trimmed
at the front. -/
theorem rdropWhile_eq_takeWhile_append_trim {s : List α} (h : trim sep s ≠ []) :
    s.rdropWhile (· = sep) = s.takeWhile (· = sep) ++ trim sep s := by
  conv_lhs => rw [← List.takeWhile_append_dropWhile (p := (· = sep)) (l := s), rdropWhile_append]
  exact if_neg h

theorem rdropWhile_eq_nil_iff_trim {s : List α} :
    s.rdropWhile (· = sep) = [] ↔ trim sep s = [] := by
  rw [trim, List.rdropWhile_eq_nil_iff, List.rdropWhile_eq_nil_iff]
  constructor
  · intro hall x hx
    exact hall x ((List.dropWhile_suffix _).mem hx)
  · intro hall x hx
    rw [← List.takeWhile_append_dropWhile (p := (· = sep)) (l := s), List.mem_append] at hx
    exact hx.elim List.mem_takeWhile_imp (hall x)

/-- The trim of a join whose first part is already trimmed: the separators in
front of the second part stay. -/
theorem trim_append_cons {a : List α} (hne : a ≠ []) (hhead : a.head? ≠ some sep)
    (hlast : a.getLast? ≠ some sep) (b : List α) :
    trim sep (a ++ sep :: b) =
      if trim sep b = [] then a else a ++ sep :: (b.takeWhile (· = sep) ++ trim sep b) := by
  have hfront : (a ++ sep :: b).dropWhile (· = sep) = a ++ sep :: b := by
    apply dropWhile_eq_self
    rwa [List.head?_append_of_ne_nil _ hne]
  have hjoined : a ++ sep :: b = (a ++ [sep]) ++ b := by simp
  rw [trim, hfront, hjoined, rdropWhile_append]
  split
  · next hempty =>
      rw [if_pos (rdropWhile_eq_nil_iff_trim.1 hempty), List.rdropWhile_concat_pos _ _ _ (by simp),
        rdropWhile_eq_self hlast]
  · next hsome =>
      have htrim : trim sep b ≠ [] := fun hnil => hsome (rdropWhile_eq_nil_iff_trim.2 hnil)
      rw [if_neg htrim, rdropWhile_eq_takeWhile_append_trim htrim]
      simp

theorem nil_mem_fields_join {a b : List α} (ha : a ≠ []) (hb : b ≠ []) :
    [] ∈ fields sep (a ++ sep :: b) ↔ [] ∈ fields sep a ∨ [] ∈ fields sep b := by
  have hsplit : (a ++ sep :: b).splitOn sep = a.splitOn sep ++ b.splitOn sep :=
    List.splitOnP_append_cons a b (by simp)
  rw [fields, if_neg (by simp), hsplit, List.mem_append, fields, if_neg ha, fields, if_neg hb]

section Encoded

variable {β : Type*} [DecidableEq β] {sep' : β} {encode : α → List β}

private theorem dropWhile_flatMap (hsep : encode sep = [sep'])
    (hother : ∀ x, x ≠ sep → (encode x).head? ≠ none ∧ (encode x).head? ≠ some sep') (s : List α) :
    (s.flatMap encode).dropWhile (· = sep') = (s.dropWhile (· = sep)).flatMap encode := by
  induction s with
  | nil => rfl
  | cons x s ih =>
    by_cases hx : x = sep
    · subst hx
      simpa [hsep] using ih
    · obtain ⟨hsome, hhead⟩ := hother x hx
      have hne : encode x ≠ [] := fun hnil => hsome (by rw [hnil]; rfl)
      have hkeep : ((x :: s).flatMap encode).head? ≠ some sep' := by
        rwa [List.flatMap_cons, List.head?_append_of_ne_nil _ hne]
      rw [dropWhile_eq_self hkeep, List.dropWhile_cons_of_neg (by simpa using hx)]

/-- Trimming commutes with an encoding that keeps the separator and uses it for
nothing else. -/
theorem trim_flatMap (hsep : encode sep = [sep'])
    (hother : ∀ x, x ≠ sep → encode x ≠ [] ∧ sep' ∉ encode x) (s : List α) :
    trim sep' (s.flatMap encode) = (trim sep s).flatMap encode := by
  have hfront : ∀ x, x ≠ sep → (encode x).head? ≠ none ∧ (encode x).head? ≠ some sep' := by
    intro x hx
    obtain ⟨hne, hfree⟩ := hother x hx
    exact ⟨mt List.head?_eq_none_iff.1 hne, fun hhead => hfree (List.mem_of_mem_head? hhead)⟩
  have hback : ∀ x, x ≠ sep → ((List.reverse ∘ encode) x).head? ≠ none ∧
      ((List.reverse ∘ encode) x).head? ≠ some sep' := by
    intro x hx
    obtain ⟨hne, hfree⟩ := hother x hx
    rw [Function.comp_apply, List.head?_reverse]
    exact ⟨mt List.getLast?_eq_none_iff.1 hne, fun hlast => hfree (List.mem_of_mem_getLast? hlast)⟩
  have hsepBack : (List.reverse ∘ encode) sep = [sep'] := by simp [hsep]
  rw [trim, dropWhile_flatMap hsep hfront, List.rdropWhile, List.reverse_flatMap,
    dropWhile_flatMap hsepBack hback, List.reverse_flatMap, trim, List.rdropWhile]
  simp [Function.comp_def]

end Encoded

section Words

/-- The parts of a sequence between the places where `word` stands; `skip`
elements of a word are still to be passed over, and `part` is the part so far,
its last element first. -/
def splitFrom (word : List α) : Nat → List α → List α → List (List α)
  | _, part, [] => [part.reverse]
  | skip + 1, part, _ :: s => splitFrom word skip part s
  | 0, part, x :: s =>
    if word.isPrefixOf (x :: s) then part.reverse :: splitFrom word (word.length - 1) [] s
    else splitFrom word 0 (x :: part) s

def split (word s : List α) : List (List α) := splitFrom word 0 [] s

/-- No part of the word but itself is both its beginning and its end. -/
def Unbordered (word : List α) : Prop :=
  ∀ border, border ≠ [] → border <+: word → border <:+ word → border = word

variable {word : List α}

private theorem splitFrom_skip (part skipped s : List α) :
    splitFrom word skipped.length part (skipped ++ s) = splitFrom word 0 part s := by
  induction skipped with
  | nil => rfl
  | cons x skipped ih => exact ih

private theorem splitFrom_word (hword : word ≠ []) (part s : List α) :
    splitFrom word 0 part (word ++ s) = part.reverse :: splitFrom word 0 [] s := by
  obtain ⟨x, rest, rfl⟩ := List.exists_cons_of_ne_nil hword
  have hhere : (x :: rest).isPrefixOf (x :: (rest ++ s)) = true :=
    List.isPrefixOf_iff_prefix.2 (List.prefix_append (x :: rest) s)
  rw [List.cons_append, splitFrom, if_pos hhere, List.length_cons, Nat.add_sub_cancel,
    splitFrom_skip]

private theorem splitFrom_part {part front s : List α}
    (h : ∀ t, t ≠ [] → t <:+ front → ¬ word <+: t ++ s) :
    splitFrom word 0 part (front ++ s) = splitFrom word 0 (front.reverse ++ part) s := by
  induction front generalizing part with
  | nil => rfl
  | cons x front ih =>
    have hhere : ¬ (word.isPrefixOf (x :: (front ++ s)) = true) := fun hprefixed =>
      h (x :: front) (List.cons_ne_nil x front) (List.suffix_refl _)
        (List.isPrefixOf_iff_prefix.1 hprefixed)
    rw [List.cons_append, splitFrom, if_neg hhere,
      ih fun t hne hsuffix => h t hne (hsuffix.trans (List.suffix_cons x front)),
      List.reverse_cons, List.append_assoc]
    rfl

omit [DecidableEq α] in
/-- No word begins in a part without one, whether the part is the last one or a
word comes after it. -/
private theorem no_word_in_part (hborder : Unbordered word) {part s t : List α}
    (hpart : ¬ word <:+: part) (hs : s = [] ∨ word <+: s) (hne : t ≠ []) (ht : t <:+ part) :
    ¬ word <+: t ++ s := by
  intro hhere
  rcases Nat.le_total word.length t.length with hle | hle
  · have hinside : word <+: t := List.prefix_of_prefix_length_le hhere (List.prefix_append t s) hle
    exact hpart (hinside.isInfix.trans ht.isInfix)
  · obtain ⟨border, rfl⟩ := List.prefix_of_prefix_length_le (List.prefix_append t s) hhere hle
    have hrest : border <+: s := (List.prefix_append_right_inj t).1 hhere
    have hsome : border ≠ [] := by
      intro hempty
      subst hempty
      rw [List.append_nil] at hpart
      exact hpart ht.isInfix
    rcases hs with rfl | hafter
    · exact hsome (List.prefix_nil.1 hrest)
    · have hlength : border.length ≤ (t ++ border).length := by simp
      have hfront : border <+: t ++ border := List.prefix_of_prefix_length_le hrest hafter hlength
      have hwhole := hborder border hsome hfront (List.suffix_append t border)
      exact hne (List.self_eq_append_left.1 hwhole)

theorem split_intercalate (hword : word ≠ []) (hborder : Unbordered word) {parts : List (List α)}
    (hparts : ∀ part ∈ parts, ¬ word <:+: part) (hne : parts ≠ []) :
    split word (word.intercalate parts) = parts := by
  rw [split]
  induction parts with
  | nil => exact absurd rfl hne
  | cons first rest ih =>
    have hfirst := hparts first List.mem_cons_self
    cases rest with
    | nil =>
      have hlast : splitFrom word 0 [] (first ++ []) = splitFrom word 0 (first.reverse ++ []) [] :=
        splitFrom_part fun t hsome ht =>
          no_word_in_part hborder hfirst (.inl rfl) hsome ht
      rw [List.append_nil, List.append_nil, splitFrom, List.reverse_reverse] at hlast
      simpa using hlast
    | cons second rest =>
      rw [List.intercalate_cons_cons, List.append_assoc,
        splitFrom_part fun t hsome ht =>
          no_word_in_part hborder hfirst (.inr (List.prefix_append _ _)) hsome ht,
        splitFrom_word hword, ih (fun part hpart => hparts part (List.mem_cons_of_mem _ hpart))
          (List.cons_ne_nil _ _)]
      simp

omit [DecidableEq α] in
theorem forall_mem_intercalate {P : α → Prop} {parts : List (List α)} (hword : ∀ x ∈ word, P x)
    (hparts : ∀ part ∈ parts, ∀ x ∈ part, P x) : ∀ x ∈ word.intercalate parts, P x := by
  induction parts with
  | nil => simp
  | cons first rest ih =>
    have hfirst := hparts first List.mem_cons_self
    cases rest with
    | nil => simpa using hfirst
    | cons second rest =>
      intro x hx
      rw [List.intercalate_cons_cons, List.mem_append, List.mem_append] at hx
      rcases hx with (hx | hx) | hx
      · exact hfirst x hx
      · exact hword x hx
      · exact ih (fun part hpart => hparts part (List.mem_cons_of_mem _ hpart)) x hx

end Words

end YcAgent.Lib.Delimited
