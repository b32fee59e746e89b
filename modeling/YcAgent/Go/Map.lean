import Mathlib.Data.List.AList

/-!
Go maps as association lists without repeated keys. A `range` loop that deletes
or copies entries visits every key the map had once; which order it takes does
not matter for what it leaves.
-/

namespace YcAgent.Go

abbrev GoMap (κ ν : Type) := AList fun _ : κ => ν

namespace GoMap

variable {κ ν : Type} [DecidableEq κ]

/-- `for k := range m { if drop(k) { delete(m, k) } }`. -/
def deleteWhere (drop : κ → Bool) (m : GoMap κ ν) : GoMap κ ν :=
  m.keys.foldl (fun m k => if drop k then m.erase k else m) m

private theorem mem_foldl_erase (drop : κ → Bool) (keys : List κ) (m : GoMap κ ν) (k : κ) :
    k ∈ keys.foldl (fun m k => if drop k then AList.erase k m else m) m ↔
      k ∈ m ∧ (k ∈ keys → drop k = false) := by
  induction keys generalizing m with
  | nil => simp
  | cons key keys ih =>
    rw [List.foldl_cons, ih]
    by_cases hdrop : drop key = true
    · rw [if_pos hdrop, AList.mem_erase]
      constructor
      · rintro ⟨⟨hne, hmem⟩, hkeys⟩
        refine ⟨hmem, ?_⟩
        intro hin
        rcases List.mem_cons.mp hin with rfl | hin
        · exact absurd rfl hne
        · exact hkeys hin
      · rintro ⟨hmem, hkeys⟩
        refine ⟨⟨?_, hmem⟩, fun hin => hkeys (List.mem_cons_of_mem _ hin)⟩
        rintro rfl
        simp [hkeys List.mem_cons_self] at hdrop
    · rw [if_neg hdrop]
      constructor
      · rintro ⟨hmem, hkeys⟩
        refine ⟨hmem, ?_⟩
        intro hin
        rcases List.mem_cons.mp hin with rfl | hin
        · simpa using hdrop
        · exact hkeys hin
      · rintro ⟨hmem, hkeys⟩
        exact ⟨hmem, fun hin => hkeys (List.mem_cons_of_mem _ hin)⟩

@[simp] theorem mem_deleteWhere (drop : κ → Bool) (m : GoMap κ ν) (k : κ) :
    k ∈ m.deleteWhere drop ↔ k ∈ m ∧ drop k = false := by
  rw [deleteWhere, mem_foldl_erase]
  constructor
  · rintro ⟨hmem, hkeys⟩
    exact ⟨hmem, hkeys hmem⟩
  · rintro ⟨hmem, hkept⟩
    exact ⟨hmem, fun _ => hkept⟩

theorem lookup_of_deleteWhere {drop : κ → Bool} {m : GoMap κ ν} {k : κ} {v : ν}
    (h : (m.deleteWhere drop).lookup k = some v) : m.lookup k = some v := by
  have hrounds (keys : List κ) : ∀ m : GoMap κ ν,
      (keys.foldl (fun m k => if drop k then AList.erase k m else m) m).lookup k = some v →
        m.lookup k = some v := by
    induction keys with
    | nil => exact fun m hm => hm
    | cons key keys ih =>
      intro m hm
      rw [List.foldl_cons] at hm
      have hround := ih _ hm
      split at hround
      · by_cases hkey : k = key
        · rw [hkey, AList.lookup_erase] at hround
          cases hround
        · rwa [AList.lookup_erase_ne hkey] at hround
      · exact hround
  exact hrounds m.keys m h

/-- `for k, v := range m { if keep(k) { out[k] = v } }` for a new map `out`. -/
def collectWhere (keep : κ → Bool) (m : GoMap κ ν) : GoMap κ ν :=
  m.entries.foldl (fun out e => if keep e.1 then out.insert e.1 e.2 else out) ∅

private theorem mem_foldl_insert (keep : κ → Bool) (entries : List (Sigma fun _ : κ => ν))
    (out : GoMap κ ν) (k : κ) :
    k ∈ entries.foldl (fun out e => if keep e.1 then AList.insert e.1 e.2 out else out) out ↔
      k ∈ out ∨ (k ∈ entries.map Sigma.fst ∧ keep k = true) := by
  induction entries generalizing out with
  | nil => simp
  | cons e entries ih =>
    rw [List.foldl_cons, ih, List.map_cons, List.mem_cons]
    by_cases hkeep : keep e.1 = true
    · rw [if_pos hkeep, AList.mem_insert]
      constructor
      · rintro ((rfl | hmem) | ⟨hin, hk⟩)
        · exact .inr ⟨.inl rfl, hkeep⟩
        · exact .inl hmem
        · exact .inr ⟨.inr hin, hk⟩
      · rintro (hmem | ⟨rfl | hin, hk⟩)
        · exact .inl (.inr hmem)
        · exact .inl (.inl rfl)
        · exact .inr ⟨hin, hk⟩
    · rw [if_neg hkeep]
      constructor
      · rintro (hmem | ⟨hin, hk⟩)
        · exact .inl hmem
        · exact .inr ⟨.inr hin, hk⟩
      · rintro (hmem | ⟨rfl | hin, hk⟩)
        · exact .inl hmem
        · exact absurd hk hkeep
        · exact .inr ⟨hin, hk⟩

@[simp] theorem mem_collectWhere (keep : κ → Bool) (m : GoMap κ ν) (k : κ) :
    k ∈ m.collectWhere keep ↔ k ∈ m ∧ keep k = true := by
  rw [collectWhere, mem_foldl_insert]
  constructor
  · rintro (hmem | hfound)
    · exact absurd hmem (AList.notMem_empty k)
    · exact hfound
  · exact .inr

/-- `if _, ok := m[k]; !ok { m[k] = v }`. -/
def recordFirst (m : GoMap κ ν) (k : κ) (v : ν) : GoMap κ ν :=
  if k ∈ m then m else m.insert k v

theorem lookup_recordFirst (m : GoMap κ ν) (k key : κ) (v : ν) :
    (m.recordFirst k v).lookup key = (m.lookup key).or (if k = key then some v else none) := by
  unfold recordFirst
  by_cases hkey : k = key
  · rw [if_pos hkey]
    subst hkey
    by_cases hmem : k ∈ m
    · obtain ⟨old, hold⟩ := Option.isSome_iff_exists.mp (AList.lookup_isSome.mpr hmem)
      rw [if_pos hmem, hold, Option.some_or]
    · rw [if_neg hmem, AList.lookup_insert, AList.lookup_eq_none.mpr hmem, Option.none_or]
  · rw [if_neg hkey, Option.or_none]
    by_cases hmem : k ∈ m
    · rw [if_pos hmem]
    · rw [if_neg hmem, AList.lookup_insert_ne (Ne.symm hkey)]

/-- A loop whose rounds each fill in a value where there is none leaves the
value of the first round that has one. -/
theorem lookup_foldl {α : Type} {f : GoMap κ ν → α → GoMap κ ν} {value : α → Option ν} {key : κ}
    (hround : ∀ m x, (f m x).lookup key = (m.lookup key).or (value x)) (l : List α)
    (m : GoMap κ ν) : (l.foldl f m).lookup key = (m.lookup key).or (l.findSome? value) := by
  induction l generalizing m with
  | nil => simp
  | cons x l ih =>
    rw [List.foldl_cons, ih, hround, Option.or_assoc, List.findSome?_cons]
    cases value x with
    | none => rw [Option.none_or]
    | some v => rw [Option.some_or]

end GoMap

end YcAgent.Go
