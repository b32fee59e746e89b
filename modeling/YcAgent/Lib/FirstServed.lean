import Mathlib.Data.List.Basic
import Mathlib.Logic.Function.Basic

/-!
First come, first served. Visitors come one after the other and ask for keys;
what is pending under a key goes to the first request for it, and a later one
finds nothing. The outcome, as a collection, is the same for every order of
the visitors exactly when no two of them ask for a key that has something
pending.
-/

namespace YcAgent.Lib.FirstServed

variable {ι κ β γ : Type} {wants : ι → List κ}

def requests (wants : ι → List κ) (order : List ι) : List (ι × κ) :=
  order.flatMap fun i => (wants i).map fun k => (i, k)

@[simp] theorem requests_cons (i : ι) (order : List ι) :
    requests wants (i :: order) = (wants i).map (fun k => (i, k)) ++ requests wants order := rfl

theorem mem_requests {order : List ι} {i : ι} {k : κ} :
    (i, k) ∈ requests wants order ↔ i ∈ order ∧ k ∈ wants i := by
  simp [requests]

variable [DecidableEq κ] {pending : κ → Option β}

def serve (pending : κ → Option β) : List (ι × κ) → List (ι × κ × β)
  | [] => []
  | (i, k) :: rest =>
    (pending k).toList.map (fun b => (i, k, b)) ++ serve (Function.update pending k none) rest

def remaining (pending : κ → Option β) (asked : List (ι × κ)) : κ → Option β :=
  asked.foldl (fun pending r => Function.update pending r.2 none) pending

theorem serve_append (pending : κ → Option β) (asked later : List (ι × κ)) :
    serve pending (asked ++ later) =
      serve pending asked ++ serve (remaining pending asked) later := by
  induction asked generalizing pending with
  | nil => rfl
  | cons r asked ih =>
    rw [List.cons_append, serve, serve, ih, List.append_assoc]
    rfl

theorem remaining_eq (pending : κ → Option β) (asked : List (ι × κ)) (k : κ) :
    remaining pending asked k = if k ∈ asked.map Prod.snd then none else pending k := by
  induction asked generalizing pending with
  | nil => rfl
  | cons r asked ih =>
    rw [remaining, List.foldl_cons]
    change remaining (Function.update pending r.2 none) asked k = _
    rw [ih]
    by_cases hkey : k = r.2
    · simp [hkey]
    · rw [Function.update_of_ne hkey, List.map_cons]
      simp only [List.mem_cons, hkey, false_or]

/-- Only what is pending under the keys asked for matters. -/
theorem serve_congr {pending' : κ → Option β} {asked : List (ι × κ)}
    (h : ∀ r ∈ asked, pending r.2 = pending' r.2) : serve pending asked = serve pending' asked := by
  induction asked generalizing pending pending' with
  | nil => rfl
  | cons r asked ih =>
    have hlater : serve (Function.update pending r.2 none) asked =
        serve (Function.update pending' r.2 none) asked := by
      apply ih
      intro r' hr'
      by_cases hkey : r'.2 = r.2
      · rw [hkey, Function.update_self, Function.update_self]
      · rw [Function.update_of_ne hkey, Function.update_of_ne hkey]
        exact h r' (List.mem_cons_of_mem _ hr')
    rw [serve, serve, hlater, h r List.mem_cons_self]

theorem mem_of_mem_serve {asked : List (ι × κ)} {x : ι × κ × β} (h : x ∈ serve pending asked) :
    (x.1, x.2.1) ∈ asked := by
  induction asked generalizing pending with
  | nil => cases h
  | cons r asked ih =>
    rcases List.mem_append.mp h with hnow | hlater
    · obtain ⟨b, _, rfl⟩ := List.mem_map.mp hnow
      exact List.mem_cons_self
    · exact List.mem_cons_of_mem _ (ih hlater)

/-- A visitor that is the only one to ask for a key gets what is pending. -/
theorem mem_serve_of_only {asked : List (ι × κ)} {i : ι} {k : κ} {b : β} (hb : pending k = some b)
    (hasked : (i, k) ∈ asked) (honly : ∀ r ∈ asked, r.2 = k → r.1 = i) :
    (i, k, b) ∈ serve pending asked := by
  induction asked generalizing pending with
  | nil => cases hasked
  | cons r asked ih =>
    obtain ⟨j, k'⟩ := r
    rw [serve]
    by_cases hkey : k' = k
    · have hvisitor : j = i := honly (j, k') List.mem_cons_self hkey
      rw [hkey, hvisitor, hb]
      exact List.mem_append_left _ List.mem_cons_self
    · apply List.mem_append_right
      apply ih
      · rw [Function.update_of_ne (Ne.symm hkey), hb]
      · rcases List.mem_cons.mp hasked with heq | hlater
        · cases heq
          exact absurd rfl hkey
        · exact hlater
      · exact fun r hr => honly r (List.mem_cons_of_mem _ hr)

/-- Less is pending: some keys have lost what they had. -/
private def Less (fewer pending : κ → Option β) : Prop :=
  ∀ k, fewer k = none ∨ fewer k = pending k

private theorem Less.update {fewer : κ → Option β} (h : Less fewer pending) (k : κ) :
    Less (Function.update fewer k none) (Function.update pending k none) := by
  intro k'
  by_cases hkey : k' = k
  · rw [hkey, Function.update_self]
    exact .inl rfl
  · rw [Function.update_of_ne hkey, Function.update_of_ne hkey]
    exact h k'

omit [DecidableEq κ] in
private theorem Less.toList_length_le {fewer : κ → Option β} (h : Less fewer pending) (k : κ) :
    (fewer k).toList.length ≤ (pending k).toList.length := by
  rcases h k with hnone | hsame
  · rw [hnone]
    exact Nat.zero_le _
  · exact Nat.le_of_eq (congrArg (fun left => left.toList.length) hsame)

private theorem Less.length_serve_le {fewer : κ → Option β} (h : Less fewer pending)
    (asked : List (ι × κ)) : (serve fewer asked).length ≤ (serve pending asked).length := by
  induction asked generalizing pending fewer with
  | nil => exact Nat.le_refl _
  | cons r asked ih =>
    simp only [serve, List.length_append, List.length_map]
    exact Nat.add_le_add (h.toList_length_le r.2) (ih (h.update r.2))

/-- Fewer requests are served if one of them is for a key that lost what it
had. -/
private theorem Less.length_serve_lt {fewer : κ → Option β} (h : Less fewer pending)
    (asked : List (ι × κ)) {k : κ} (hk : k ∈ asked.map Prod.snd) (hgone : fewer k = none)
    (hpending : pending k ≠ none) :
    (serve fewer asked).length < (serve pending asked).length := by
  induction asked generalizing pending fewer with
  | nil => cases hk
  | cons r asked ih =>
    simp only [serve, List.length_append, List.length_map]
    have hfirst := h.toList_length_le r.2
    by_cases hkey : k = r.2
    · obtain ⟨b, hb⟩ := Option.ne_none_iff_exists'.mp hpending
      have hlater := (h.update r.2).length_serve_le asked
      rw [← hkey, hgone, hb]
      rw [← hkey] at hlater
      simp only [Option.toList_none, Option.toList_some, List.length_nil, List.length_singleton]
      omega
    · have hlater : (serve (Function.update fewer r.2 none) asked).length <
          (serve (Function.update pending r.2 none) asked).length := by
        apply ih (h.update r.2)
        · rcases List.mem_cons.mp hk with heq | hmem
          · exact absurd heq hkey
          · exact hmem
        · rw [Function.update_of_ne hkey, hgone]
        · rw [Function.update_of_ne hkey]
          exact hpending
      omega

private theorem remaining_less (pending : κ → Option β) (asked : List (ι × κ)) :
    Less (remaining pending asked) pending := by
  intro k
  rw [remaining_eq]
  split
  · exact .inl rfl
  · exact .inr rfl

/-- No two of the visitors ask for a key with something pending. -/
def Unshared (pending : κ → Option β) (wants : ι → List κ) (visitors : List ι) : Prop :=
  ∀ i ∈ visitors, ∀ j ∈ visitors, i ≠ j → ∀ k ∈ wants i, k ∈ wants j → pending k = none

/-- Visitors that share nothing pending are served as if each came alone. -/
theorem serve_requests_of_unshared {order : List ι} (hnodup : order.Nodup)
    (h : Unshared pending wants order) :
    serve pending (requests wants order) =
      order.flatMap fun i => serve pending ((wants i).map fun k => (i, k)) := by
  induction order with
  | nil => rfl
  | cons i order ih =>
    obtain ⟨hfresh, hnodup'⟩ := List.nodup_cons.mp hnodup
    have hrest : Unshared pending wants order := fun i' hi' j hj =>
      h i' (List.mem_cons_of_mem _ hi') j (List.mem_cons_of_mem _ hj)
    rw [requests_cons, serve_append, List.flatMap_cons, ← ih hnodup' hrest]
    congr 1
    apply serve_congr
    rintro ⟨j, k⟩ hr
    obtain ⟨hj, hk⟩ := mem_requests.mp hr
    rw [remaining_eq]
    split
    · next hmem =>
        have hki : k ∈ wants i := by simpa using hmem
        have hne : i ≠ j := by
          rintro rfl
          exact hfresh hj
        exact (h i List.mem_cons_self j (List.mem_cons_of_mem _ hj) hne k hki hk).symm
    · rfl

section Visitor

variable [DecidableEq ι] (wants pending)

private def servedTo (i : ι) (l : List (ι × κ × β)) : Nat := l.countP fun x => x.1 = i

private theorem servedTo_others {i : ι} {order : List ι} (hi : i ∉ order) :
    servedTo i (serve pending (requests wants order)) = 0 := by
  rw [servedTo, List.countP_eq_zero]
  intro x hx
  have hmem := (mem_requests.mp (mem_of_mem_serve hx)).1
  have hne : x.1 ≠ i := by
    rintro rfl
    exact hi hmem
  simpa using hne

private theorem servedTo_self (i : ι) (keys : List κ) :
    servedTo i (serve pending (keys.map fun k => (i, k))) =
      (serve pending (keys.map fun k => (i, k))).length := by
  rw [servedTo, List.countP_eq_length]
  intro x hx
  obtain ⟨k, _, heq⟩ := List.mem_map.mp (mem_of_mem_serve hx)
  simpa using (congrArg Prod.fst heq).symm

private theorem servedTo_cons (i : ι) {order : List ι} (hi : i ∉ order) :
    servedTo i (serve pending (requests wants (i :: order))) =
      (serve pending ((wants i).map fun k => (i, k))).length := by
  have hself := servedTo_self pending i (wants i)
  have hothers := servedTo_others wants (remaining pending ((wants i).map fun k => (i, k))) hi
  rw [requests_cons, serve_append]
  simp only [servedTo, List.countP_append] at hself hothers ⊢
  omega

private theorem servedTo_second {i j : ι} (hne : i ≠ j) {order : List ι} (hi : i ∉ order) :
    servedTo i (serve pending (requests wants (j :: i :: order))) =
      (serve (remaining pending ((wants j).map fun k => (j, k)))
        ((wants i).map fun k => (i, k))).length := by
  have hfirst : servedTo i (serve pending (requests wants [j])) = 0 :=
    servedTo_others wants pending (by simpa using hne)
  have hsecond := servedTo_cons wants (remaining pending ((wants j).map fun k => (j, k))) i hi
  rw [requests_cons, serve_append]
  rw [requests_cons, serve_append] at hfirst
  simp only [servedTo, List.countP_append] at hfirst hsecond ⊢
  omega

omit [DecidableEq κ] in
open scoped Classical in
private theorem servedTo_eq_of_perm {note : ι × κ × β → γ}
    (hnote : ∀ x y, note x = note y → x.1 = y.1) (i : ι) {l l' : List (ι × κ × β)}
    (h : (l.map note).Perm (l'.map note)) : servedTo i l = servedTo i l' := by
  have hcount (l : List (ι × κ × β)) :
      (l.map note).countP (fun c => ∃ x, note x = c ∧ x.1 = i) = servedTo i l := by
    rw [List.countP_map, servedTo]
    congr 1
    funext x
    apply decide_eq_decide.mpr
    constructor
    · rintro ⟨y, hy, rfl⟩
      exact hnote x y hy.symm
    · intro hx
      exact ⟨x, rfl, hx⟩
  rw [← hcount l, ← hcount l']
  exact h.countP_eq _

/-- Whatever is noted of what is handed out, as long as it tells the visitor:
the notes are the same collection for any two orders exactly when nothing
pending is shared. -/
theorem serve_perm_iff {note : ι × κ × β → γ} (hnote : ∀ x y, note x = note y → x.1 = y.1)
    {visitors : List ι} (hnodup : visitors.Nodup) :
    (∀ order order' : List ι, order.Perm visitors → order'.Perm visitors →
      ((serve pending (requests wants order)).map note).Perm
        ((serve pending (requests wants order')).map note)) ↔
      Unshared pending wants visitors := by
  constructor
  · intro hsame i hi j hj hne k hki hkj
    by_contra hpending
    -- the visitor `i` once comes first and once right after `j`
    have hfirst : (i :: visitors.erase i).Perm visitors := (List.perm_cons_erase hi).symm
    have hj' : j ∈ visitors.erase i := (List.mem_erase_of_ne (Ne.symm hne)).mpr hj
    have hsecond : (j :: i :: (visitors.erase i).erase j).Perm visitors :=
      (List.Perm.swap i j _).trans
        (((List.perm_cons_erase hj').symm.cons i).trans hfirst)
    have hgone : i ∉ visitors.erase i := hnodup.not_mem_erase
    have hcount := servedTo_eq_of_perm hnote i (hsame _ _ hfirst hsecond)
    rw [servedTo_cons wants pending i hgone, servedTo_second wants pending hne fun hmem =>
      hgone (List.mem_of_mem_erase hmem)] at hcount
    have hlost : remaining pending ((wants j).map fun k => (j, k)) k = none := by
      rw [remaining_eq, if_pos]
      simpa using hkj
    have hless := (remaining_less pending ((wants j).map fun k => (j, k))).length_serve_lt
      ((wants i).map fun k => (i, k)) (by simpa using hki) hlost hpending
    omega
  · intro hunshared order order' horder horder'
    have halone (order : List ι) (horder : order.Perm visitors) :
        serve pending (requests wants order) =
          order.flatMap fun i => serve pending ((wants i).map fun k => (i, k)) := by
      apply serve_requests_of_unshared (horder.nodup_iff.mpr hnodup)
      intro i hi j hj
      exact hunshared i (horder.mem_iff.mp hi) j (horder.mem_iff.mp hj)
    rw [halone order horder, halone order' horder']
    exact ((horder.trans horder'.symm).flatMap_right _).map note

end Visitor

end YcAgent.Lib.FirstServed
