import Mathlib.Data.List.Basic

/-!
The first hit in a list, when the search can give up early, when it is made in
a part of the list only, and when some of the hits are overlooked.
-/

namespace YcAgent.Lib.Search

variable {α β : Type*}

section FindSome

variable {f : α → Option β}

/-- A search that stops at the first element that is not `ok` finds nothing
before it. -/
def GivesUp (ok : α → Bool) (f : α → Option β) (l : List α) : Prop :=
  ∃ before x after, l = before ++ x :: after ∧ ok x = false ∧ ∀ y ∈ before, f y = none

theorem GivesUp.findSome? {ok : α → Bool} {l : List α} (h : GivesUp ok f l) :
    (l.takeWhile ok).findSome? f = none := by
  obtain ⟨before, x, after, rfl, hx, hbefore⟩ := h
  rw [List.findSome?_eq_none_iff]
  intro y hy
  have hmem : y ∈ before := by
    rw [List.takeWhile_append] at hy
    split at hy
    · simpa [hx] using hy
    · exact (List.takeWhile_prefix ok).mem hy
  exact hbefore y hmem

theorem findSome?_takeWhile {ok : α → Bool} {l : List α} (h : ¬ GivesUp ok f l) :
    (l.takeWhile ok).findSome? f = l.findSome? f := by
  induction l with
  | nil => rfl
  | cons x l ih =>
    have hok : ok x = true := by
      by_contra hx
      exact h ⟨[], x, l, rfl, by simpa using hx, by simp⟩
    rw [List.takeWhile_cons_of_pos hok, List.findSome?_cons, List.findSome?_cons]
    cases hfx : f x with
    | some found => rfl
    | none =>
      apply ih
      intro hgives
      obtain ⟨before, y, after, rfl, hy, hbefore⟩ := hgives
      apply h
      refine ⟨x :: before, y, after, rfl, hy, ?_⟩
      intro z hz
      rcases List.mem_cons.mp hz with rfl | hz
      · exact hfx
      · exact hbefore z hz

theorem findSome?_filter {keep : α → Bool} (h : ∀ x, f x ≠ none → keep x = true) (l : List α) :
    (l.filter keep).findSome? f = l.findSome? f := by
  induction l with
  | nil => rfl
  | cons x l ih =>
    rw [List.findSome?_cons, ← ih]
    cases hfx : f x with
    | some found =>
      have hkeep : keep x = true := h x (by simp [hfx])
      rw [List.filter_cons_of_pos hkeep, List.findSome?_cons, hfx]
    | none =>
      by_cases hkeep : keep x = true
      · rw [List.filter_cons_of_pos hkeep, List.findSome?_cons, hfx]
      · rw [List.filter_cons_of_neg hkeep]

theorem findSome?_of_only {l : List α} {a : α} (ha : a ∈ l) (h : ∀ x ∈ l, f x ≠ none → x = a) :
    l.findSome? f = f a := by
  cases hfound : l.findSome? f with
  | none => exact (List.findSome?_eq_none_iff.mp hfound a ha).symm
  | some b =>
    obtain ⟨x, hx, hfx⟩ := List.exists_of_findSome?_eq_some hfound
    have hxa : x = a := h x hx (by simp [hfx])
    rw [← hxa, hfx]

/-- Two searches that may give up agree if both do or neither does, and only
then, unless there is nothing to find. -/
theorem findSome?_takeWhile_eq_iff {ok : α → Bool} {l l' : List α}
    (hsame : l.findSome? f = l'.findSome? f) :
    (l.takeWhile ok).findSome? f = (l'.takeWhile ok).findSome? f ↔
      (∀ x ∈ l, f x = none) ∨ (GivesUp ok f l ↔ GivesUp ok f l') := by
  rw [← List.findSome?_eq_none_iff]
  by_cases hl : GivesUp ok f l <;> by_cases hl' : GivesUp ok f l'
  · simp [hl, hl', hl.findSome?, hl'.findSome?]
  · simp [hl, hl', hl.findSome?, findSome?_takeWhile hl', hsame, eq_comm]
  · simp [hl, hl', hl'.findSome?, findSome?_takeWhile hl]
  · simp [hl, hl', findSome?_takeWhile hl, findSome?_takeWhile hl', hsame]

end FindSome

section Find

variable {p : α → Bool} {g : α → Option β}

theorem find?_of_imp {q : α → Bool} {l : List α} {a : α} (h : l.find? p = some a)
    (himp : ∀ x ∈ l, q x = true → p x = true) (ha : q a = true) : l.find? q = some a := by
  obtain ⟨-, before, after, rfl, hbefore⟩ := List.find?_eq_some_iff_append.mp h
  apply List.find?_eq_some_iff_append.mpr
  refine ⟨ha, before, after, rfl, ?_⟩
  intro x hx
  have hp : p x = false := by simpa using hbefore x hx
  have hq : q x ≠ true := by
    intro hqx
    rw [himp x (List.mem_append_left _ hx) hqx] at hp
    cases hp
  simpa using hq

theorem findSome?_eq_find?_bind {f : α → Option β} {l : List α}
    (hg : ∀ x, p x = true → (g x).isSome) (hf : ∀ x ∈ l, f x = if p x then g x else none) :
    l.findSome? f = (l.find? p).bind g := by
  induction l with
  | nil => rfl
  | cons x l ih =>
    have hrest := ih fun y hy => hf y (List.mem_cons_of_mem x hy)
    rw [List.findSome?_cons, hf x List.mem_cons_self]
    by_cases hx : p x = true
    · obtain ⟨b, hb⟩ := Option.isSome_iff_exists.mp (hg x hx)
      simp [hx, hb]
    · simp [hx, hrest]

/-- A search that overlooks some of the elements ends with the result of the
first one of all if that one is not overlooked, or if the first one that is not
happens to have the same result. -/
theorem find?_overlooking_iff {missed : α → Bool} (hg : ∀ x, p x = true → (g x).isSome)
    (l : List α) :
    (l.find? fun x => p x && !missed x).bind g = (l.find? p).bind g ↔
      ∀ a, l.find? p = some a → missed a = true →
        ∃ b, l.find? (fun x => p x && !missed x) = some b ∧ g b = g a := by
  cases hfirst : l.find? p with
  | none =>
    have hnone : l.find? (fun x => p x && !missed x) = none := by
      rw [List.find?_eq_none] at hfirst ⊢
      intro x hx
      simp [hfirst x hx]
    simp [hnone]
  | some a =>
    have hpa : p a = true := List.find?_some hfirst
    by_cases hmissed : missed a = true
    · obtain ⟨found, hfound⟩ := Option.isSome_iff_exists.mp (hg a hpa)
      cases hkept : l.find? (fun x => p x && !missed x) with
      | none => simp [hmissed, hfound]
      | some b => simp [hmissed]
    · have hkept : l.find? (fun x => p x && !missed x) = some a := by
        apply find?_of_imp hfirst
        · intro x _ hx
          exact (Bool.and_eq_true _ _ ▸ hx).1
        · simp [hpa, hmissed]
      simp [hkept, hmissed]

end Find

/-- Results listed with the elements they belong to tell what was found for
each element. -/
theorem filterMap_map_eq_iff {γ : Type*} {tag : α → β → γ}
    (htag : ∀ x b y c, tag x b = tag y c → x = y ∧ b = c) {f g : α → Option β} {l : List α} :
    (l.filterMap fun x => (f x).map (tag x)) = (l.filterMap fun x => (g x).map (tag x)) ↔
      ∀ x ∈ l, f x = g x := by
  constructor
  · intro h x hx
    have htransfer {f g : α → Option β} {b : β} (hfx : f x = some b)
        (h : (l.filterMap fun x => (f x).map (tag x)) =
          (l.filterMap fun x => (g x).map (tag x))) : g x = some b := by
      have hmem : tag x b ∈ l.filterMap fun x => (f x).map (tag x) :=
        List.mem_filterMap.mpr ⟨x, hx, by rw [hfx, Option.map_some]⟩
      rw [h] at hmem
      obtain ⟨y, -, hy⟩ := List.mem_filterMap.mp hmem
      obtain ⟨c, hc, htags⟩ := Option.map_eq_some_iff.mp hy
      obtain ⟨rfl, rfl⟩ := htag _ _ _ _ htags
      exact hc
    cases hfx : f x with
    | some b => exact (htransfer hfx h).symm
    | none =>
      cases hgx : g x with
      | none => rfl
      | some b =>
        have hsome := htransfer hgx h.symm
        rw [hfx] at hsome
        cases hsome
  · intro h
    apply List.filterMap_congr
    intro x hx
    rw [h x hx]

section First

/-- An element of a filtered list comes from a first element that yields it. -/
theorem exists_first_filterMap {f : α → Option β} {b : β} {l : List α} (h : b ∈ l.filterMap f) :
    ∃ before a after, l = before ++ a :: after ∧ f a = some b ∧ b ∉ before.filterMap f := by
  induction l with
  | nil => cases h
  | cons x l ih =>
    by_cases hx : f x = some b
    · exact ⟨[], x, l, rfl, hx, List.not_mem_nil⟩
    · have hrest : b ∈ l.filterMap f := by
        obtain ⟨y, hy, hfy⟩ := List.mem_filterMap.mp h
        rcases List.mem_cons.mp hy with heq | hmem
        · exact absurd (heq ▸ hfy) hx
        · exact List.mem_filterMap.mpr ⟨y, hmem, hfy⟩
      obtain ⟨before, a, after, hl, ha, hnot⟩ := ih hrest
      refine ⟨x :: before, a, after, by rw [hl]; rfl, ha, ?_⟩
      intro hmem
      obtain ⟨y, hy, hfy⟩ := List.mem_filterMap.mp hmem
      rcases List.mem_cons.mp hy with heq | hbefore
      · exact hx (heq ▸ hfy)
      · exact hnot (List.mem_filterMap.mpr ⟨y, hbefore, hfy⟩)

theorem getElem?_append_cons_iff {before after : List α} {a : α} (hbefore : a ∉ before)
    (hafter : a ∉ after) (i : Nat) :
    (before ++ a :: after)[i]? = some a ↔ i = before.length := by
  constructor
  · intro h
    rcases Nat.lt_trichotomy i before.length with hlt | heq | hgt
    · rw [List.getElem?_append_left hlt] at h
      exact absurd (List.mem_of_getElem? h) hbefore
    · exact heq
    · have hsucc : i - before.length = (i - before.length - 1) + 1 := by omega
      rw [List.getElem?_append_right (by omega), hsucc, List.getElem?_cons_succ] at h
      exact absurd (List.mem_of_getElem? h) hafter
  · intro h
    rw [h, List.getElem?_append_right (Nat.le_refl _), Nat.sub_self, List.getElem?_cons_zero]

variable [DecidableEq α]

theorem length_eraseDups_le (l : List α) : l.eraseDups.length ≤ l.length := by
  induction hn : l.length using Nat.strongRecOn generalizing l with
  | _ n ih =>
    cases l with
    | nil => simp
    | cons a l =>
      have hfilter : (l.filter fun b => !b == a).length ≤ l.length := List.length_filter_le _ _
      rw [List.length_cons] at hn
      have hrest := ih _ (by omega) (l.filter fun b => !b == a) rfl
      rw [List.eraseDups_cons, List.length_cons]
      omega

/-- Where an element stands once repetitions are removed: behind the different
elements before its first occurrence, and nowhere else. -/
theorem eraseDups_getElem?_iff {before after : List α} {a : α} (h : a ∉ before) (i : Nat) :
    (before ++ a :: after).eraseDups[i]? = some a ↔ i = before.eraseDups.length := by
  have hremove : (a :: after).removeAll before = a :: after.removeAll before := by
    rw [List.removeAll, List.filter_cons_of_pos (by simpa using h), List.removeAll]
  rw [List.eraseDups_append, hremove, List.eraseDups_cons]
  apply getElem?_append_cons_iff
  · rwa [List.mem_eraseDups]
  · rw [List.mem_eraseDups, List.mem_filter]
    simp

end First

end YcAgent.Lib.Search
