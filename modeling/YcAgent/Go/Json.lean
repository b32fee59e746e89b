import Mathlib.Data.Rat.Defs
import Mathlib.Data.List.Basic

/-!
Values of JSON. A value is given by what is found along paths through it: member
order and all but the last of several members with one name do not count. Values
that are read and written again have their numbers and texts recoded; they are
the same values after that if and only if nothing that can be found in them is
changed by it.
-/

namespace YcAgent.Go

/-- The characters of a text. What is not a character, such as half a surrogate
pair, is `none`. -/
abbrev Text := List (Option Char)

inductive Json where
  | null
  | bool (b : Bool)
  | num (x : ℚ)
  | str (s : Text)
  | arr (elems : List Json)
  | obj (members : List (Text × Json))

namespace Json

inductive Leaf where
  | null
  | bool (b : Bool)
  | num (x : ℚ)
  | str (s : Text)
  | arr (length : Nat)
  | obj
  deriving DecidableEq

def leaf : Json → Leaf
  | .null => .null
  | .bool b => .bool b
  | .num x => .num x
  | .str s => .str s
  | .arr elems => .arr elems.length
  | .obj _ => .obj

inductive Step where
  | key (k : Text)
  | index (i : Nat)
  deriving DecidableEq

/-- The value of a member; the last one counts. -/
def lastMember (k : Text) : List (Text × Json) → Option Json
  | [] => none
  | (k', j) :: rest =>
    match lastMember k rest with
    | some j' => some j'
    | none => if k' = k then some j else none

def child : Json → Step → Option Json
  | .arr elems, .index i => elems[i]?
  | .obj members, .key k => lastMember k members
  | _, _ => none

def follow : Json → List Step → Option Json
  | j, [] => some j
  | j, s :: path => (j.child s).bind fun c => c.follow path

def look (j : Json) (path : List Step) : Option Leaf := (j.follow path).map leaf

/-- Two values that are found to be the same along all paths. -/
def Same (a b : Json) : Prop := ∀ path, a.look path = b.look path

theorem Same.refl (a : Json) : Same a a := fun _ => rfl

theorem Same.symm {a b : Json} (h : Same a b) : Same b a := fun path => (h path).symm

theorem Same.trans {a b c : Json} (h : Same a b) (h' : Same b c) : Same a c :=
  fun path => (h path).trans (h' path)

theorem look_cons (j : Json) (s : Step) (path : List Step) :
    j.look (s :: path) = (j.child s).bind fun c => c.look path := by
  unfold look
  rw [follow]
  cases j.child s <;> rfl

def SameOpt : Option Json → Option Json → Prop
  | none, none => True
  | some a, some b => Same a b
  | _, _ => False

theorem sameOpt_iff {a b : Option Json} :
    SameOpt a b ↔ ∀ path, (a.bind fun c => c.look path) = b.bind fun c => c.look path := by
  cases a with
  | none =>
    cases b with
    | none => simp [SameOpt]
    | some b =>
      refine iff_of_false (fun h => h) fun h => ?_
      cases h []
  | some a =>
    cases b with
    | none =>
      refine iff_of_false (fun h => h) fun h => ?_
      cases h []
    | some b => exact Iff.rfl

theorem same_iff {a b : Json} :
    Same a b ↔ a.leaf = b.leaf ∧ ∀ s, SameOpt (a.child s) (b.child s) := by
  constructor
  · intro h
    refine ⟨Option.some.inj (h []), fun s => sameOpt_iff.2 fun path => ?_⟩
    rw [← look_cons, ← look_cons]
    exact h (s :: path)
  · rintro ⟨hleaf, hchild⟩ path
    cases path with
    | nil => exact congrArg some hleaf
    | cons s path =>
      rw [look_cons, look_cons]
      exact sameOpt_iff.1 (hchild s) path

theorem SameOpt.refl (a : Option Json) : SameOpt a a := sameOpt_iff.2 fun _ => rfl

theorem SameOpt.congr_left {a b c : Option Json} (h : SameOpt a b) :
    SameOpt a c ↔ SameOpt b c := by
  rw [sameOpt_iff, sameOpt_iff]
  simp only [sameOpt_iff.1 h]

theorem sameOpt_some {a : Option Json} {b : Json} (h : SameOpt a (some b)) :
    ∃ c, a = some c ∧ Same c b := by
  cases a with
  | none => cases h
  | some c => exact ⟨c, rfl, h⟩

theorem lastMember_isSome {k : Text} {members : List (Text × Json)} :
    (∃ j, lastMember k members = some j) ↔ ∃ m ∈ members, m.1 = k := by
  induction members with
  | nil => simp [lastMember]
  | cons m rest ih =>
    obtain ⟨k', j⟩ := m
    rw [List.exists_mem_cons_iff, ← ih, lastMember]
    cases hrest : lastMember k rest with
    | some j' => simp
    | none => by_cases hk : k' = k <;> simp [hk]

theorem lastMember_mem {k : Text} {members : List (Text × Json)} {j : Json}
    (h : lastMember k members = some j) : (k, j) ∈ members := by
  induction members with
  | nil => cases h
  | cons m rest ih =>
    obtain ⟨k', j'⟩ := m
    rw [lastMember] at h
    cases hrest : lastMember k rest with
    | some c =>
      rw [hrest] at h ih
      exact List.mem_cons_of_mem _ (ih h)
    | none =>
      rw [hrest] at h
      by_cases hk : k' = k
      · simp only [hk, if_true, Option.some.injEq] at h
        rw [hk, h]
        exact List.mem_cons_self
      · simp [hk] at h

theorem lastMember_append (k : Text) (members more : List (Text × Json)) :
    lastMember k (members ++ more) = (lastMember k more).or (lastMember k members) := by
  induction members with
  | nil => simp [lastMember]
  | cons m rest ih =>
    obtain ⟨k', j⟩ := m
    rw [List.cons_append, lastMember, ih, lastMember]
    cases lastMember k more with
    | some c => rfl
    | none => rfl

theorem lastMember_filter (p : Text → Bool) (k : Text) (members : List (Text × Json)) :
    lastMember k (members.filter fun m => p m.1) = if p k then lastMember k members else none := by
  induction members with
  | nil => simp [lastMember]
  | cons m rest ih =>
    obtain ⟨k', j⟩ := m
    rw [List.filter_cons]
    by_cases hp : p k' = true
    · rw [if_pos hp, lastMember, ih, lastMember]
      by_cases hk : p k = true
      · simp [hk]
      · have hne : k' ≠ k := fun heq => hk (heq ▸ hp)
        simp [hk, hne]
    · rw [if_neg hp, ih, lastMember]
      by_cases hk : p k = true
      · have hne : k' ≠ k := fun heq => hp (heq ▸ hk)
        simp only [hk, if_true, if_neg hne]
        cases lastMember k rest <;> rfl
      · simp [hk]

theorem lastMember_map (f : Text → Json → Json) (k : Text) (members : List (Text × Json)) :
    lastMember k (members.map fun m => (m.1, f m.1 m.2)) = (lastMember k members).map (f k) := by
  induction members with
  | nil => rfl
  | cons m rest ih =>
    obtain ⟨k', j⟩ := m
    rw [List.map_cons, lastMember, ih, lastMember]
    cases lastMember k rest with
    | some c => rfl
    | none => by_cases hk : k' = k <;> simp [hk]

theorem lastMember_forall₂ {P : Text → Json → Json → Prop} {l l' : List (Text × Json)}
    (h : List.Forall₂ (fun m m' => m.1 = m'.1 ∧ P m.1 m.2 m'.2) l l') (k : Text) :
    (lastMember k l = none ∧ lastMember k l' = none) ∨
      ∃ c c', lastMember k l = some c ∧ lastMember k l' = some c' ∧ P k c c' := by
  induction h with
  | nil => exact .inl ⟨rfl, rfl⟩
  | @cons m m' rest rest' hm _ ih =>
    obtain ⟨k₁, a⟩ := m
    obtain ⟨k₂, b⟩ := m'
    obtain ⟨hk, hP⟩ := hm
    dsimp only at hk hP
    subst hk
    rw [lastMember, lastMember]
    rcases ih with ⟨hnone, hnone'⟩ | ⟨c, c', hc, hc', hcP⟩
    · rw [hnone, hnone']
      by_cases hname : k₁ = k
      · subst hname
        exact .inr ⟨a, b, if_pos rfl, if_pos rfl, hP⟩
      · exact .inl ⟨if_neg hname, if_neg hname⟩
    · rw [hc, hc']
      exact .inr ⟨c, c', rfl, rfl, hcP⟩

def setMember (k : Text) (j : Json) (members : List (Text × Json)) : List (Text × Json) :=
  members.filter (fun m => m.1 != k) ++ [(k, j)]

def deleteMember (k : Text) (members : List (Text × Json)) : List (Text × Json) :=
  members.filter fun m => m.1 != k

theorem lastMember_deleteMember (k k' : Text) (members : List (Text × Json)) :
    lastMember k (deleteMember k' members) = if k = k' then none else lastMember k members := by
  rw [deleteMember, lastMember_filter (fun name => name != k')]
  by_cases hk : k = k' <;> simp [hk]

theorem lastMember_setMember (k k' : Text) (j : Json) (members : List (Text × Json)) :
    lastMember k (setMember k' j members) = if k = k' then some j else lastMember k members := by
  have hset : setMember k' j members = deleteMember k' members ++ [(k', j)] := rfl
  rw [hset, lastMember_append, lastMember_deleteMember]
  by_cases hk : k = k'
  · simp [lastMember, hk]
  · simp [lastMember, hk, Ne.symm hk]

section Recode

variable (f : ℚ → ℚ) (g : Text → Text)

mutual

/-- Numbers and texts, names included, are replaced. -/
def recode : Json → Json
  | .null => .null
  | .bool b => .bool b
  | .num x => .num (f x)
  | .str s => .str (g s)
  | .arr elems => .arr (recodeElems elems)
  | .obj members => .obj (recodeMembers members)

def recodeElems : List Json → List Json
  | [] => []
  | j :: rest => recode j :: recodeElems rest

def recodeMembers : List (Text × Json) → List (Text × Json)
  | [] => []
  | (k, j) :: rest => (g k, recode j) :: recodeMembers rest

end

theorem recodeElems_eq (elems : List Json) : recodeElems f g elems = elems.map (recode f g) := by
  induction elems with
  | nil => rfl
  | cons j rest ih => rw [recodeElems, ih, List.map_cons]

theorem recodeMembers_eq (members : List (Text × Json)) :
    recodeMembers f g members = members.map fun m => (g m.1, recode f g m.2) := by
  induction members with
  | nil => rfl
  | cons m rest ih => rw [recodeMembers, ih, List.map_cons]

mutual

theorem recode_recode (f' : ℚ → ℚ) (g' : Text → Text) :
    ∀ j, recode f' g' (recode f g j) = recode (f' ∘ f) (g' ∘ g) j
  | .null => rfl
  | .bool _ => rfl
  | .num _ => rfl
  | .str _ => rfl
  | .arr elems => congrArg Json.arr (recodeElems_recodeElems f' g' elems)
  | .obj members => congrArg Json.obj (recodeMembers_recodeMembers f' g' members)

theorem recodeElems_recodeElems (f' : ℚ → ℚ) (g' : Text → Text) :
    ∀ elems, recodeElems f' g' (recodeElems f g elems) = recodeElems (f' ∘ f) (g' ∘ g) elems
  | [] => rfl
  | j :: rest =>
    congrArg₂ List.cons (recode_recode f' g' j) (recodeElems_recodeElems f' g' rest)

theorem recodeMembers_recodeMembers (f' : ℚ → ℚ) (g' : Text → Text) :
    ∀ members, recodeMembers f' g' (recodeMembers f g members) =
      recodeMembers (f' ∘ f) (g' ∘ g) members
  | [] => rfl
  | (k, j) :: rest =>
    congrArg₂ (fun j rest => ((g' ∘ g) k, j) :: rest) (recode_recode f' g' j)
      (recodeMembers_recodeMembers f' g' rest)

end

/-- The names of the members do not change. -/
def NamesKept : Json → Prop
  | .obj members => ∀ m ∈ members, g m.1 = m.1
  | _ => True

/-- What a value is does not change. -/
def Kept : Json → Prop
  | .num x => f x = x
  | .str s => g s = s
  | .obj members => ∀ m ∈ members, g m.1 = m.1
  | _ => True

def Stable (j : Json) : Prop := ∀ path c, j.follow path = some c → Kept f g c

variable {f g}

theorem lastMember_recode {k : Text} {members : List (Text × Json)}
    (h : ∀ m ∈ members, g m.1 = k ↔ m.1 = k) :
    lastMember k (recodeMembers f g members) = (lastMember k members).map (recode f g) := by
  induction members with
  | nil => rfl
  | cons m rest ih =>
    obtain ⟨k', j⟩ := m
    have hk := h (k', j) List.mem_cons_self
    rw [recodeMembers, lastMember, ih fun m hm => h m (List.mem_cons_of_mem _ hm), lastMember]
    cases lastMember k rest with
    | some c => rfl
    | none =>
      simp only [Option.map_none, hk]
      by_cases hname : k' = k <;> simp [hname]

theorem exists_name_of_lastMember_recode {k : Text} {members : List (Text × Json)} {c : Json}
    (h : lastMember k (recodeMembers f g members) = some c) :
    ∃ m ∈ members, g m.1 = k ∧ recode f g m.2 = c := by
  have hmem := lastMember_mem h
  rw [recodeMembers_eq] at hmem
  obtain ⟨m, hm, heq⟩ := List.mem_map.1 hmem
  exact ⟨m, hm, congrArg Prod.fst heq, congrArg Prod.snd heq⟩

theorem child_recode {j : Json} (h : NamesKept g j) (s : Step) :
    (recode f g j).child s = (j.child s).map (recode f g) := by
  cases j with
  | arr elems =>
    cases s with
    | key k => rfl
    | index i =>
      change (recodeElems f g elems)[i]? = elems[i]?.map _
      rw [recodeElems_eq, List.getElem?_map]
  | obj members =>
    cases s with
    | key k =>
      apply lastMember_recode
      intro m hm
      rw [h m hm]
    | index i => rfl
  | _ => cases s <;> rfl

/-- Whatever is found in a recoded value is recoded. -/
theorem exists_of_child_recode {j c : Json} {s : Step} (h : (recode f g j).child s = some c) :
    ∃ d, c = recode f g d := by
  cases j with
  | arr elems =>
    cases s with
    | key k => cases h
    | index i =>
      change (recodeElems f g elems)[i]? = some c at h
      rw [recodeElems_eq, List.getElem?_map] at h
      obtain ⟨d, _, hd⟩ := Option.map_eq_some_iff.1 h
      exact ⟨d, hd.symm⟩
  | obj members =>
    cases s with
    | key k =>
      obtain ⟨m, _, _, hm⟩ := exists_name_of_lastMember_recode h
      exact ⟨m.2, hm.symm⟩
    | index i => cases h
  | _ => cases s <;> cases h

theorem namesKept_id (j : Json) : NamesKept id j := by
  cases j with
  | obj members => exact fun _ _ => rfl
  | _ => trivial

theorem NamesKept.of_kept {j : Json} (h : Kept f g j) : NamesKept g j := by
  cases j with
  | obj members => exact h
  | _ => trivial

theorem leaf_recode_eq_iff {j : Json} (hobj : ∀ members, j = .obj members → Kept f g j) :
    (recode f g j).leaf = j.leaf ↔ Kept f g j := by
  cases j with
  | num x => simp [recode, leaf, Kept]
  | str s => simp [recode, leaf, Kept]
  | arr elems => simp [recode, leaf, Kept, recodeElems_eq]
  | obj members => exact iff_of_true rfl (hobj members rfl)
  | _ => exact iff_of_true rfl trivial

theorem Stable.child {j c : Json} {s : Step} (h : Stable f g j) (hc : j.child s = some c) :
    Stable f g c := by
  intro path d hd
  apply h (s :: path) d
  rw [follow, hc]
  exact hd

theorem Stable.kept {j : Json} (h : Stable f g j) : Kept f g j := h [] j rfl

theorem stable_of_children {j : Json} (h : Kept f g j)
    (hchild : ∀ s c, j.child s = some c → Stable f g c) : Stable f g j := by
  intro path c hc
  cases path with
  | nil =>
    obtain rfl := Option.some.inj hc
    exact h
  | cons s path =>
    rw [follow] at hc
    obtain ⟨d, hd, hc⟩ := Option.bind_eq_some_iff.1 hc
    exact hchild s d hd path c hc

theorem stable_null : Stable f g .null := by
  apply stable_of_children
  · exact True.intro
  · intro s c hc
    cases s <;> cases hc

theorem stable_str {s : Text} (h : g s = s) : Stable f g (.str s) := by
  apply stable_of_children
  · exact h
  · intro s c hc
    cases s <;> cases hc

theorem kept_recode (hf : ∀ x, f (f x) = f x) (hg : ∀ s, g (g s) = g s) (j : Json) :
    Kept f g (recode f g j) := by
  cases j with
  | num x => exact hf x
  | str s => exact hg s
  | obj members =>
    intro m hm
    rw [recodeMembers_eq] at hm
    obtain ⟨m', _, rfl⟩ := List.mem_map.1 hm
    exact hg m'.1
  | _ => trivial

theorem stable_recode (hf : ∀ x, f (f x) = f x) (hg : ∀ s, g (g s) = g s) (j : Json) :
    Stable f g (recode f g j) := by
  intro path
  induction path generalizing j with
  | nil =>
    intro c hc
    obtain rfl := Option.some.inj hc
    exact kept_recode hf hg j
  | cons s path ih =>
    intro c hc
    rw [follow] at hc
    obtain ⟨d, hd, hc⟩ := Option.bind_eq_some_iff.1 hc
    obtain ⟨d', rfl⟩ := exists_of_child_recode hd
    exact ih d' c hc

theorem same_of_stable {j : Json} (h : Stable f g j) : Same (recode f g j) j := by
  intro path
  induction path generalizing j with
  | nil => exact congrArg some ((leaf_recode_eq_iff fun _ _ => h.kept).2 h.kept)
  | cons s path ih =>
    unfold look at ih ⊢
    rw [follow, follow, child_recode (.of_kept h.kept)]
    cases hc : j.child s with
    | none => rfl
    | some c => exact ih (h.child hc)

theorem kept_of_same (hg : ∀ s, g (g s) = g s) {j : Json} (h : Same (recode f g j) j) :
    Kept f g j := by
  apply (leaf_recode_eq_iff ?_).1
  · exact Option.some.inj (h [])
  · rintro members rfl m hm
    obtain ⟨c, hc⟩ := lastMember_isSome.2 ⟨m, hm, rfl⟩
    have hfound := h [.key m.1]
    unfold look at hfound
    rw [follow, follow] at hfound
    change ((lastMember m.1 (recodeMembers f g members)).bind _).map _ =
      ((lastMember m.1 members).bind _).map _ at hfound
    rw [hc] at hfound
    cases hc' : lastMember m.1 (recodeMembers f g members) with
    | none =>
      rw [hc'] at hfound
      cases hfound
    | some c' =>
      obtain ⟨m', _, hname, _⟩ := exists_name_of_lastMember_recode hc'
      rw [← hname]
      exact hg _

theorem Same.child (hg : ∀ s, g (g s) = g s) {j c : Json} {s : Step} (h : Same (recode f g j) j)
    (hc : j.child s = some c) : Same (recode f g c) c := by
  intro path
  have hpath := h (s :: path)
  unfold look at hpath ⊢
  rw [follow, follow, child_recode (.of_kept (kept_of_same hg h)), hc] at hpath
  exact hpath

/-- A recoded value is the same if and only if nothing found in it changes. -/
theorem same_recode_iff (hg : ∀ s, g (g s) = g s) {j : Json} :
    Same (recode f g j) j ↔ Stable f g j := by
  constructor
  · intro h path
    induction path generalizing j with
    | nil =>
      rintro c ⟨⟩
      exact kept_of_same hg h
    | cons s path ih =>
      intro c hc
      rw [follow] at hc
      obtain ⟨d, hd, hc⟩ := Option.bind_eq_some_iff.1 hc
      exact ih (h.child hg hd) c hc
  · exact same_of_stable

/-- Recoding numbers alone keeps values the same that are. -/
theorem look_recode_id (f : ℚ → ℚ) (j : Json) (path : List Step) :
    (recode f id j).look path = (j.look path).map fun
      | .num x => .num (f x)
      | l => l := by
  induction path generalizing j with
  | nil => cases j <;> simp [look, follow, recode, leaf, recodeElems_eq]
  | cons s path ih =>
    rw [look_cons, look_cons, child_recode (namesKept_id j)]
    cases j.child s with
    | none => rfl
    | some c => exact ih c

theorem Same.recode_id (f : ℚ → ℚ) {a b : Json} (h : Same a b) :
    Same (recode f id a) (recode f id b) := by
  intro path
  rw [look_recode_id, look_recode_id, h path]

end Recode

mutual

def allNums (p : ℚ → Bool) : Json → Bool
  | .num x => p x
  | .arr elems => allNumsElems p elems
  | .obj members => allNumsMembers p members
  | _ => true

def allNumsElems (p : ℚ → Bool) : List Json → Bool
  | [] => true
  | j :: rest => allNums p j && allNumsElems p rest

def allNumsMembers (p : ℚ → Bool) : List (Text × Json) → Bool
  | [] => true
  | (_, j) :: rest => allNums p j && allNumsMembers p rest

end

end Json

end YcAgent.Go
