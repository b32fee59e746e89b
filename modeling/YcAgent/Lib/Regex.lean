import Mathlib.Data.List.Infix

/-!
Regular expressions with one group, matched by backtracking. A pattern has its
ways to match at a place in order of priority, repetition preferring more to
less; the first way at the leftmost place wins. A pattern that accepts no
blanks is looked for in one word of a text after the other, and in a word a
literal and repetition up to the end amount to a search for the literal.
-/

namespace YcAgent.Lib.Regex

variable {α : Type}

/-- What a match leaves of the text, and what the group has taken. -/
structure Match (α : Type) where
  rest : List α
  group : Option (List α)

inductive Pattern (α : Type) where
  | empty
  | one (accepts : α → Bool)
  | many (accepts : α → Bool)
  | seq (p q : Pattern α)
  | group (p : Pattern α)

/-- What repetition can leave, the longest match first. -/
def leftOver (accepts : α → Bool) : List α → List (List α)
  | [] => [[]]
  | a :: s => if accepts a then leftOver accepts s ++ [a :: s] else [a :: s]

namespace Pattern

/-- The matches at the start of a text, in order of priority. -/
def ends : Pattern α → List α → List (Match α)
  | .empty, s => [⟨s, none⟩]
  | .one _, [] => []
  | .one accepts, a :: s => if accepts a then [⟨s, none⟩] else []
  | .many accepts, s => (leftOver accepts s).map (⟨·, none⟩)
  | .seq p q, s => (p.ends s).flatMap fun m =>
    (q.ends m.rest).map fun m' => ⟨m'.rest, m'.group.or m.group⟩
  | .group p, s => (p.ends s).map fun m =>
    ⟨m.rest, some (s.take (s.length - m.rest.length))⟩

def find (p : Pattern α) (s : List α) : Option (Match α) :=
  s.tails.findSome? fun t => (p.ends t).head?

def submatch (p : Pattern α) (s : List α) : Option (List α) :=
  (p.find s).map fun m => m.group.getD []

def plus (accepts : α → Bool) : Pattern α := .seq (.one accepts) (.many accepts)

def literal [DecidableEq α] : List α → Pattern α
  | [] => .empty
  | a :: l => .seq (.one fun b => b = a) (literal l)

/-- The pattern accepts no blank anywhere. -/
def Avoids (blank : α → Bool) : Pattern α → Prop
  | .empty => True
  | .one accepts => ∀ a, blank a = true → accepts a = false
  | .many accepts => ∀ a, blank a = true → accepts a = false
  | .seq p q => p.Avoids blank ∧ q.Avoids blank
  | .group p => p.Avoids blank

end Pattern

open Pattern

section Words

variable {blank : α → Bool}

private theorem leftOver_append {accepts : α → Bool}
    (havoids : ∀ a, blank a = true → accepts a = false) {t : List α}
    (ht : ∀ a ∈ t.head?, blank a = true) (s : List α) :
    leftOver accepts (s ++ t) = (leftOver accepts s).map (· ++ t) := by
  induction s with
  | nil =>
    cases t with
    | nil => rfl
    | cons a t => simp [leftOver, havoids a (ht a rfl)]
  | cons a s ih =>
    by_cases ha : accepts a = true
    · simp [leftOver, ha, ih]
    · simp [leftOver, ha]

/-- A match never reaches past a blank. -/
theorem ends_append {p : Pattern α} (havoids : p.Avoids blank) {t : List α}
    (ht : ∀ a ∈ t.head?, blank a = true) (s : List α) :
    p.ends (s ++ t) = (p.ends s).map fun m => ⟨m.rest ++ t, m.group⟩ := by
  induction p generalizing s with
  | empty => rfl
  | one accepts =>
    cases s with
    | nil =>
      cases t with
      | nil => rfl
      | cons a t => simp [ends, havoids a (ht a rfl)]
    | cons a s =>
      by_cases ha : accepts a = true
      · simp [ends, ha]
      · simp [ends, ha]
  | many accepts => simp [ends, leftOver_append havoids ht]
  | seq p q ihp ihq => simp [ends, ihp havoids.1, ihq havoids.2, List.map_flatMap, List.flatMap_map,
      Function.comp_def]
  | group p ih =>
    simp only [ends, ih havoids, List.map_map]
    apply List.map_congr_left
    intro m _
    have hlength : (s ++ t).length - (m.rest ++ t).length = s.length - m.rest.length := by
      simp only [List.length_append]
      omega
    simp only [Function.comp_apply, hlength, List.take_append_of_le_length (Nat.sub_le _ _)]

theorem submatch_cons (p : Pattern α) (a : α) (s : List α) :
    p.submatch (a :: s) =
      ((p.ends (a :: s)).head?.map fun m => m.group.getD []).or (p.submatch s) := by
  have htails : (a :: s).tails = (a :: s) :: s.tails := rfl
  rw [submatch, submatch, find, htails, List.findSome?_cons]
  cases (p.ends (a :: s)).head? with
  | none => rfl
  | some m => rfl

theorem submatch_nil {p : Pattern α} (hempty : p.ends [] = []) : p.submatch [] = none := by
  simp [submatch, find, hempty]

private theorem submatch_append {p : Pattern α} (havoids : p.Avoids blank)
    (hempty : p.ends [] = []) {t : List α} (ht : ∀ a ∈ t.head?, blank a = true) (s : List α) :
    p.submatch (s ++ t) = (p.submatch s).or (p.submatch t) := by
  induction s with
  | nil => rw [submatch_nil hempty, List.nil_append, Option.none_or]
  | cons a s ih =>
    have hhead : (p.ends (a :: (s ++ t))).head? =
        (p.ends (a :: s)).head?.map fun m => ⟨m.rest ++ t, m.group⟩ := by
      rw [← List.head?_map, ← ends_append havoids ht]
      rfl
    rw [List.cons_append, submatch_cons, submatch_cons, hhead, ih, Option.or_assoc,
      Option.map_map]
    rfl

def fields (blank : α → Bool) (s : List α) : List (List α) :=
  (s.splitOnP blank).filter fun word => !word.isEmpty

/-- A text has no blanks, or a blank between two shorter texts. -/
private theorem induction_on_blanks (blank : α → Bool) {motive : List α → Prop} (s : List α)
    (hword : ∀ s, (∀ a ∈ s, blank a = false) → motive s)
    (hsplit : ∀ front c back, blank c = true → motive front → motive back →
      motive (front ++ c :: back)) : motive s := by
  induction hlen : s.length using Nat.strongRecOn generalizing s with
  | ind n ih =>
    by_cases hblank : ∃ c ∈ s, blank c = true
    · obtain ⟨c, hmem, hc⟩ := hblank
      obtain ⟨front, back, rfl⟩ := List.append_of_mem hmem
      rw [List.length_append, List.length_cons] at hlen
      exact hsplit front c back hc (ih front.length (by omega) front rfl)
        (ih back.length (by omega) back rfl)
    · apply hword
      intro a ha
      by_contra hne
      exact hblank ⟨a, ha, by simpa using hne⟩

theorem fields_of_not_blank {s : List α} (hs : ∀ a ∈ s, blank a = false) :
    fields blank s = if s = [] then [] else [s] := by
  rw [fields, List.splitOnP_eq_singleton hs]
  cases s with
  | nil => rfl
  | cons a s => rfl

theorem fields_append_cons {c : α} (hc : blank c = true) (front back : List α) :
    fields blank (front ++ c :: back) = fields blank front ++ fields blank back := by
  rw [fields, List.splitOnP_append_cons front back hc, List.filter_append]
  rfl

theorem not_blank_of_mem_fields {s word : List α} (hword : word ∈ fields blank s) :
    ∀ a ∈ word, blank a = false := by
  induction s using induction_on_blanks blank with
  | hword s hs =>
    rw [fields_of_not_blank hs] at hword
    split at hword
    · cases hword
    · rw [List.mem_singleton.mp hword]
      exact hs
  | hsplit front c back hc ihfront ihback =>
    rw [fields_append_cons hc] at hword
    rcases List.mem_append.mp hword with hfront | hback
    · exact ihfront hfront
    · exact ihback hback

private theorem submatch_blank_cons {p : Pattern α} (havoids : p.Avoids blank)
    (hempty : p.ends [] = []) {c : α} (hc : blank c = true) (s : List α) :
    p.submatch (c :: s) = p.submatch s := by
  have hhead : ∀ a ∈ (c :: s).head?, blank a = true := by
    intro a ha
    cases ha
    exact hc
  have hends := ends_append havoids hhead []
  rw [hempty, List.nil_append] at hends
  rw [submatch_cons, hends]
  rfl

/-- A pattern without blanks that needs a character is looked for word by
word. -/
theorem submatch_fields {p : Pattern α} (havoids : p.Avoids blank) (hempty : p.ends [] = [])
    (s : List α) : p.submatch s = (fields blank s).findSome? p.submatch := by
  induction s using induction_on_blanks blank with
  | hword s hs =>
    rw [fields_of_not_blank hs]
    split
    · next hnil =>
        rw [hnil, submatch_nil hempty]
        rfl
    · simp
  | hsplit front c back hc ihfront ihback =>
    have hhead : ∀ a ∈ (c :: back).head?, blank a = true := by
      intro a ha
      cases ha
      exact hc
    rw [submatch_append havoids hempty hhead, submatch_blank_cons havoids hempty hc, ihfront,
      ihback, fields_append_cons hc, List.findSome?_append]

end Words

section Literals

variable {accepts : α → Bool}

private theorem leftOver_eq {s : List α} (hs : ∀ a ∈ s, accepts a = true) :
    leftOver accepts s = s.tails.reverse := by
  induction s with
  | nil => rfl
  | cons a s ih =>
    have htails : (a :: s).tails = (a :: s) :: s.tails := rfl
    rw [leftOver, if_pos (hs a List.mem_cons_self), ih fun b hb => hs b (List.mem_cons_of_mem _ hb),
      htails, List.reverse_cons]

private theorem getLast?_tails (s : List α) : s.tails.getLast? = some [] := by
  induction s with
  | nil => rfl
  | cons a s ih =>
    have htails : (a :: s).tails = (a :: s) :: s.tails := rfl
    rw [htails, List.getLast?_cons, ih]
    rfl

private theorem submatch_eq (p : Pattern α) (s : List α) :
    p.submatch s = s.tails.findSome? fun t => (p.ends t).head?.map fun m => m.group.getD [] := by
  rw [submatch, find, List.map_findSome?]
  rfl

private theorem head_ends_plus {s : List α} (hs : ∀ a ∈ s, accepts a = true) :
    ((Pattern.group (plus accepts)).ends s).head? = if s = [] then none else some ⟨[], some s⟩ := by
  cases s with
  | nil => rfl
  | cons a s =>
    have hrest : ∀ b ∈ s, accepts b = true := fun b hb => hs b (List.mem_cons_of_mem _ hb)
    simp [plus, ends, hs a List.mem_cons_self, leftOver_eq hrest, getLast?_tails]

private theorem findSome?_congr_mem {β : Type} {f g : List α → Option β} {l : List (List α)}
    (h : ∀ t ∈ l, f t = g t) : l.findSome? f = l.findSome? g := by
  induction l with
  | nil => rfl
  | cons t l ih =>
    rw [List.findSome?_cons, List.findSome?_cons, h t List.mem_cons_self,
      ih fun u hu => h u (List.mem_cons_of_mem _ hu)]

/-- In a word repetition tries to leave as little as it can. -/
private theorem head_ends_many (q : Pattern α) {s : List α} (hs : ∀ a ∈ s, accepts a = true) :
    ((Pattern.seq (.many accepts) q).ends s).head?.map (fun m => m.group.getD []) =
      s.tails.reverse.findSome? fun t => (q.ends t).head?.map fun m => m.group.getD [] := by
  rw [ends, ends, leftOver_eq hs, List.flatMap_map, List.head?_flatMap, List.map_findSome?]
  apply findSome?_congr_mem
  intro t _
  simp

variable [DecidableEq α]

/-- What comes after a literal at the start of a text, if anything does. -/
def restAfter (l s : List α) : Option (List α) :=
  if l <+: s ∧ s.drop l.length ≠ [] then some (s.drop l.length) else none

/-- What comes after the first literal in a text that anything comes after. -/
def textAfter (l s : List α) : Option (List α) := s.tails.findSome? (restAfter l)

/-- What comes after the last literal in a text that anything comes after. -/
def textAfterLast (l s : List α) : Option (List α) := s.tails.reverse.findSome? (restAfter l)

theorem avoids_literal {blank : α → Bool} {l : List α} (hl : ∀ a ∈ l, blank a = false) :
    (literal l).Avoids blank := by
  induction l with
  | nil => trivial
  | cons a l ih =>
    refine ⟨?_, ih fun b hb => hl b (List.mem_cons_of_mem _ hb)⟩
    intro b hb
    have hne : b ≠ a := by
      rintro rfl
      rw [hl b List.mem_cons_self] at hb
      cases hb
    simp [hne]

theorem ends_literal_seq (l : List α) (q : Pattern α) (s : List α) :
    (Pattern.seq (literal l) q).ends s = if l <+: s then q.ends (s.drop l.length) else [] := by
  have hliteral (l s : List α) :
      (literal l).ends s = if l <+: s then [⟨s.drop l.length, none⟩] else [] := by
    induction l generalizing s with
    | nil => simp [literal, ends]
    | cons a l ih =>
      cases s with
      | nil => simp [literal, ends]
      | cons b s =>
        by_cases hab : b = a
        · subst hab
          simp only [literal, ends, ih, decide_true, if_true, List.flatMap_singleton]
          split
          · next hl => simp [List.cons_prefix_cons, hl]
          · next hl => simp [List.cons_prefix_cons, hl]
        · simp [literal, ends, hab, List.cons_prefix_cons, Ne.symm hab]
  rw [ends, hliteral]
  split
  · simp
  · rfl

private theorem head_literal_plus (l : List α) {s : List α} (hs : ∀ a ∈ s, accepts a = true) :
    (((Pattern.seq (literal l) (.group (plus accepts))).ends s).head?.map fun m =>
      m.group.getD []) =
      restAfter l s := by
  have hdrop : ∀ a ∈ s.drop l.length, accepts a = true := fun a ha => hs a (List.mem_of_mem_drop ha)
  rw [ends_literal_seq, restAfter]
  by_cases hl : l <+: s
  · rw [if_pos hl, head_ends_plus hdrop]
    by_cases hempty : s.drop l.length = []
    · simp [hempty]
    · simp [hempty, hl]
  · simp [hl]

theorem submatch_literal_plus (l : List α) {s : List α} (hs : ∀ a ∈ s, accepts a = true) :
    (Pattern.seq (literal l) (.group (plus accepts))).submatch s = textAfter l s := by
  rw [submatch_eq, textAfter]
  apply findSome?_congr_mem
  intro t ht
  apply head_literal_plus
  exact fun a ha => hs a (((List.mem_tails _ _).mp ht).mem ha)

/-- What comes after the first `l` and the last `k` behind it. -/
def greedyAfter (l k s : List α) : Option (List α) :=
  s.tails.findSome? fun t => if l <+: t then textAfterLast k (t.drop l.length) else none

/-- `lc*k(c+)` in a word: the repetition goes on to the last `k`. -/
private theorem submatch_greedy (l k : List α) {s : List α} (hs : ∀ a ∈ s, accepts a = true) :
    (Pattern.seq (literal l) (.seq (.many accepts)
      (.seq (literal k) (.group (plus accepts))))).submatch s = greedyAfter l k s := by
  rw [submatch_eq, greedyAfter]
  apply findSome?_congr_mem
  intro t ht
  have hrest : ∀ a ∈ t.drop l.length, accepts a = true := fun a ha =>
    hs a (((List.mem_tails _ _).mp ht).mem (List.mem_of_mem_drop ha))
  rw [ends_literal_seq]
  split
  · rw [head_ends_many _ hrest, textAfterLast]
    apply findSome?_congr_mem
    intro u hu
    apply head_literal_plus
    intro a ha
    exact hrest a (((List.mem_tails _ _).mp (List.mem_reverse.mp hu)).mem ha)
  · rfl

theorem restAfter_eq_some {l s t : List α} (h : restAfter l s = some t) : t ≠ [] ∧ l ++ t = s := by
  rw [restAfter] at h
  split at h
  · next hl =>
      obtain ⟨⟨more, rfl⟩, hne⟩ := hl
      rw [List.drop_left] at h hne
      cases h
      exact ⟨hne, rfl⟩
  · cases h

theorem prefix_of_restAfter {l s t : List α} (h : restAfter l s = some t) : l <+: s :=
  ⟨t, (restAfter_eq_some h).2⟩

theorem textAfter_eq_some {l s t : List α} (h : textAfter l s = some t) :
    t ≠ [] ∧ l ++ t <:+ s := by
  obtain ⟨u, hu, hrest⟩ := List.exists_of_findSome?_eq_some h
  obtain ⟨hne, rfl⟩ := restAfter_eq_some hrest
  exact ⟨hne, (List.mem_tails _ _).mp hu⟩

section Fields

variable {blank : α → Bool} (haccepts : ∀ a, accepts a = !blank a)
include haccepts

omit [DecidableEq α] in
private theorem accepts_of_mem_fields {s word : List α} (hword : word ∈ fields blank s) :
    ∀ a ∈ word, accepts a = true := by
  intro a ha
  rw [haccepts, not_blank_of_mem_fields hword a ha]
  rfl

omit [DecidableEq α] in
private theorem avoids_plus : (Pattern.group (plus accepts)).Avoids blank := by
  have hrejects : ∀ a, blank a = true → accepts a = false := by
    intro a ha
    rw [haccepts, ha]
    rfl
  exact ⟨hrejects, hrejects⟩

/-- `l(c+)` in a text, where `c` accepts all but blanks. -/
theorem submatch_literal_plus_fields {l : List α} (hne : l ≠ []) (hl : ∀ a ∈ l, blank a = false)
    (s : List α) : (Pattern.seq (literal l) (.group (plus accepts))).submatch s =
      (fields blank s).findSome? (textAfter l) := by
  have hempty : (Pattern.seq (literal l) (.group (plus accepts))).ends [] = [] := by
    rw [ends_literal_seq, if_neg (by simpa using hne)]
  have havoids : (Pattern.seq (literal l) (.group (plus accepts))).Avoids blank :=
    ⟨avoids_literal hl, avoids_plus haccepts⟩
  rw [submatch_fields havoids hempty]
  apply findSome?_congr_mem
  intro word hword
  exact submatch_literal_plus l (accepts_of_mem_fields haccepts hword)

/-- `lc*k(c+)` in a text, where `c` accepts all but blanks. -/
theorem submatch_greedy_fields {l k : List α} (hne : l ≠ []) (hl : ∀ a ∈ l, blank a = false)
    (hk : ∀ a ∈ k, blank a = false) (s : List α) :
    (Pattern.seq (literal l) (.seq (.many accepts)
      (.seq (literal k) (.group (plus accepts))))).submatch s =
      (fields blank s).findSome? (greedyAfter l k) := by
  have hempty : (Pattern.seq (literal l) (.seq (.many accepts)
      (.seq (literal k) (.group (plus accepts))))).ends [] = [] := by
    rw [ends_literal_seq, if_neg (by simpa using hne)]
  have havoids : (Pattern.seq (literal l) (.seq (.many accepts)
      (.seq (literal k) (.group (plus accepts))))).Avoids blank :=
    ⟨avoids_literal hl, (avoids_plus haccepts).1, avoids_literal hk, avoids_plus haccepts⟩
  rw [submatch_fields havoids hempty]
  apply findSome?_congr_mem
  intro word hword
  exact submatch_greedy l k (accepts_of_mem_fields haccepts hword)

end Fields

theorem textAfter_eq_none {l s : List α} (hnot : ¬ l <:+: s) : textAfter l s = none := by
  cases hfound : textAfter l s with
  | none => rfl
  | some t =>
    have hsuffix := (textAfter_eq_some hfound).2
    exact absurd ((List.prefix_append l t).isInfix.trans hsuffix.isInfix) hnot

theorem greedyAfter_eq_none {l k s : List α} (hnot : ¬ (l <:+: s ∧ k <:+: s)) :
    greedyAfter l k s = none := by
  rw [greedyAfter, List.findSome?_eq_none_iff]
  intro t ht
  have hsuffix : t <:+ s := (List.mem_tails _ _).mp ht
  split
  · next hl =>
      rw [textAfterLast, List.findSome?_eq_none_iff]
      intro u hu
      have hsuffix' := (List.mem_tails _ _).mp (List.mem_reverse.mp hu)
      rw [Option.eq_none_iff_forall_ne_some]
      intro v hv
      apply hnot
      constructor
      · exact hl.isInfix.trans hsuffix.isInfix
      · exact (prefix_of_restAfter hv).isInfix.trans
          (hsuffix'.isInfix.trans ((List.drop_suffix _ _).isInfix.trans hsuffix.isInfix))
  · rfl

theorem greedyAfter_append {l k s v : List α} (h : textAfterLast k s = some v) :
    greedyAfter l k (l ++ s) = some v := by
  have htails (s : List α) : ∃ more, s.tails = s :: more := by
    cases s with
    | nil => exact ⟨[], rfl⟩
    | cons a s => exact ⟨s.tails, rfl⟩
  obtain ⟨more, hmore⟩ := htails (l ++ s)
  rw [greedyAfter, hmore, List.findSome?_cons, if_pos (List.prefix_append l s), List.drop_left, h]

variable {mark : α} {l r seg t : List α}

omit [DecidableEq α] in
private theorem prefix_mark_iff (hl : mark ∉ l) (hseg : mark ∉ seg) :
    l ++ mark :: r <+: seg ++ mark :: t ↔ l = seg ∧ r <+: t := by
  constructor
  · rintro ⟨more, heq⟩
    rw [List.append_assoc, List.cons_append] at heq
    rcases List.append_eq_append_iff.mp heq with ⟨between, hsplit, hmore⟩ | ⟨between, hsplit, hmore⟩
    · cases between with
      | nil => exact ⟨by simpa using hsplit.symm, more, (List.cons.inj hmore).2⟩
      | cons first between =>
        rw [hsplit, ← (List.cons.inj hmore).1] at hseg
        simp at hseg
    · cases between with
      | nil => exact ⟨by simpa using hsplit, more, (List.cons.inj hmore).2.symm⟩
      | cons first between =>
        rw [hsplit, ← (List.cons.inj hmore).1] at hl
        simp at hl
  · rintro ⟨rfl, hr⟩
    exact (List.prefix_append_right_inj l).mpr (List.cons_prefix_cons.mpr ⟨rfl, hr⟩)

theorem restAfter_mark (hl : mark ∉ l) (hseg : mark ∉ seg) :
    restAfter (l ++ mark :: r) (seg ++ mark :: t) = if l = seg then restAfter r t else none := by
  simp only [restAfter, prefix_mark_iff hl hseg]
  by_cases heq : l = seg
  · subst heq
    simp
  · simp [heq]

private theorem restAfter_of_ne {a : α} (t : List α) (hne : mark ≠ a) :
    restAfter (mark :: r) (a :: t) = none := by
  simp [restAfter, List.cons_prefix_cons, hne]

theorem textAfter_cons (a : α) :
    textAfter l (a :: t) = (restAfter l (a :: t)).or (textAfter l t) := by
  have htails : (a :: t).tails = (a :: t) :: t.tails := rfl
  rw [textAfter, htails, List.findSome?_cons, textAfter]
  cases restAfter l (a :: t) with
  | none => rfl
  | some v => rfl

/-- The literal is found where a field ends in what it has before the mark. -/
theorem textAfter_mark (hl : mark ∉ l) (hseg : mark ∉ seg) :
    textAfter (l ++ mark :: r) (seg ++ mark :: t) =
      (if l <:+ seg then restAfter r t else none).or (textAfter (l ++ mark :: r) t) := by
  induction seg with
  | nil =>
    have hhead := restAfter_mark (r := r) (t := t) hl hseg
    rw [List.nil_append] at hhead
    rw [List.nil_append, textAfter_cons, hhead]
    simp only [List.suffix_nil]
  | cons a seg ih =>
    have hrest : mark ∉ seg := fun hmem => hseg (List.mem_cons_of_mem _ hmem)
    have hhead := restAfter_mark (r := r) (t := t) hl hseg
    rw [List.cons_append] at hhead
    rw [List.cons_append, textAfter_cons, hhead, ih hrest]
    by_cases heq : l = a :: seg
    · have hnot : ¬ l <:+ seg := by
        intro hsuffix
        have hlength := hsuffix.length_le
        rw [heq, List.length_cons] at hlength
        omega
      rw [if_pos heq, if_neg hnot, if_pos (heq ▸ List.suffix_refl l), Option.none_or]
    · have hiff : l <:+ a :: seg ↔ l <:+ seg := by
        rw [List.suffix_cons_iff]
        simp [heq]
      simp only [heq, hiff, if_false, Option.none_or]

theorem textAfter_of_not_mem {a : α} (ha : a ∈ l) (ht : a ∉ t) : textAfter l t = none := by
  rw [textAfter, List.findSome?_eq_none_iff]
  intro u hu
  rw [Option.eq_none_iff_forall_ne_some]
  intro v hv
  have hmem : a ∈ u := (prefix_of_restAfter hv).mem ha
  exact ht (((List.mem_tails _ _).mp hu).mem hmem)

theorem textAfter_append (hseg : mark ∉ seg) :
    textAfter (mark :: r) (seg ++ t) = textAfter (mark :: r) t := by
  induction seg with
  | nil => rfl
  | cons a seg ih =>
    have hrest : mark ∉ seg := fun hmem => hseg (List.mem_cons_of_mem _ hmem)
    have hne : mark ≠ a := fun heq => hseg (heq ▸ List.mem_cons_self)
    have hnone := restAfter_of_ne (r := r) (seg ++ t) hne
    rw [List.cons_append, textAfter_cons, hnone, ih hrest, Option.none_or]

theorem textAfterLast_cons (a : α) :
    textAfterLast l (a :: t) = (textAfterLast l t).or (restAfter l (a :: t)) := by
  have htails : (a :: t).tails = (a :: t) :: t.tails := rfl
  rw [textAfterLast, htails, List.reverse_cons, List.findSome?_append, textAfterLast]
  simp

/-- A literal that starts with a mark is in none of the fields themselves. -/
theorem textAfterLast_append (hseg : mark ∉ seg) :
    textAfterLast (mark :: r) (seg ++ t) = textAfterLast (mark :: r) t := by
  induction seg with
  | nil => rfl
  | cons a seg ih =>
    have hrest : mark ∉ seg := fun hmem => hseg (List.mem_cons_of_mem _ hmem)
    have hne : mark ≠ a := fun heq => hseg (heq ▸ List.mem_cons_self)
    have hnone := restAfter_of_ne (r := r) (seg ++ t) hne
    rw [List.cons_append, textAfterLast_cons, ih hrest, hnone, Option.or_none]

theorem textAfterLast_mark :
    textAfterLast (mark :: r) (mark :: t) = (textAfterLast (mark :: r) t).or (restAfter r t) := by
  rw [textAfterLast_cons]
  congr 1
  simp [restAfter, List.cons_prefix_cons]

end Literals

end YcAgent.Lib.Regex
