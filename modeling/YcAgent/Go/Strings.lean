import YcAgent.Go.Stream

/-!
The functions of Go's `strings` package, on the bytes a Go string is made of.
-/

namespace YcAgent.Go

/-- The characters of `unicode.IsSpace`, in UTF-8. -/
def spaces : List Bytes :=
  [[9], [10], [11], [12], [13], [32], [0xC2, 0x85], [0xC2, 0xA0], [0xE1, 0x9A, 0x80],
    [0xE2, 0x80, 0x80], [0xE2, 0x80, 0x81], [0xE2, 0x80, 0x82], [0xE2, 0x80, 0x83],
    [0xE2, 0x80, 0x84], [0xE2, 0x80, 0x85], [0xE2, 0x80, 0x86], [0xE2, 0x80, 0x87],
    [0xE2, 0x80, 0x88], [0xE2, 0x80, 0x89], [0xE2, 0x80, 0x8A], [0xE2, 0x80, 0xA8],
    [0xE2, 0x80, 0xA9], [0xE2, 0x80, 0xAF], [0xE2, 0x81, 0x9F], [0xE3, 0x80, 0x80]]

/-- `s` without the words of `cut` it begins with, of which there are at most
`n`. -/
def trimStart (cut : List Bytes) : Nat → Bytes → Bytes
  | 0, s => s
  | n + 1, s =>
    match cut.find? (·.isPrefixOf s) with
    | some word => trimStart cut n (s.drop word.length)
    | none => s

def trimLeftSpace (s : Bytes) : Bytes := trimStart spaces s.length s

def trimRightSpace (s : Bytes) : Bytes :=
  (trimStart (spaces.map List.reverse) s.length s.reverse).reverse

def trimSpace (s : Bytes) : Bytes := trimRightSpace (trimLeftSpace s)

private theorem trimStart_eq_self {cut : List Bytes} {s : Bytes}
    (h : ∀ word ∈ cut, word.isPrefixOf s = false) (n : Nat) : trimStart cut n s = s := by
  cases n with
  | zero => rfl
  | succ n =>
    have hnone : cut.find? (·.isPrefixOf s) = none := by
      rw [List.find?_eq_none]
      intro word hword
      simp [h word hword]
    simp [trimStart, hnone]

theorem trimSpace_eq_self {s : Bytes} (hleft : ∀ word ∈ spaces, word.isPrefixOf s = false)
    (hright : ∀ word ∈ spaces.map List.reverse, word.isPrefixOf s.reverse = false) :
    trimSpace s = s := by
  rw [trimSpace, trimLeftSpace, trimStart_eq_self hleft, trimRightSpace,
    trimStart_eq_self hright, List.reverse_reverse]

example : trimSpace [32, 104, 105, 0xC2, 0xA0, 10] = [104, 105] := by decide

/-- `strings.Replace(s, old, new, limit)` for an `old` that is not empty; `skip`
characters of a replaced word are still to be passed over. -/
def replaceFrom (old new : List Char) : Nat → Nat → List Char → List Char
  | _, _, [] => []
  | skip + 1, limit, _ :: s => replaceFrom old new skip limit s
  | 0, limit, c :: s =>
    if 0 < limit ∧ old.isPrefixOf (c :: s) then
      new ++ replaceFrom old new (old.length - 1) (limit - 1) s
    else c :: replaceFrom old new 0 limit s

def replaceFirst (s old new : String) : String :=
  String.ofList (replaceFrom old.toList new.toList 0 1 s.toList)

def replaceAll (s old new : String) : String :=
  String.ofList (replaceFrom old.toList new.toList 0 s.length s.toList)

def index (s sub : Bytes) : Option Nat := s.tails.findIdx? fun rest => sub.isPrefixOf rest

theorem index_isSome_iff {s sub : Bytes} : (index s sub).isSome ↔ sub <:+: s := by
  rw [index, List.findIdx?_isSome, List.any_eq_true, List.infix_iff_prefix_suffix]
  constructor
  · intro h
    obtain ⟨rest, hrest, hsub⟩ := h
    exact ⟨rest, List.isPrefixOf_iff_prefix.mp hsub, (List.mem_tails _ _).mp hrest⟩
  · intro h
    obtain ⟨rest, hsub, hrest⟩ := h
    exact ⟨rest, (List.mem_tails _ _).mpr hrest, List.isPrefixOf_iff_prefix.mpr hsub⟩

private theorem mem_intersperse {part sep : Bytes} {parts : List Bytes} (h : part ∈ parts) :
    part ∈ parts.intersperse sep := by
  induction parts with
  | nil => cases h
  | cons first rest ih =>
    cases rest with
    | nil => exact h
    | cons second rest =>
      rw [List.intersperse_cons_cons, List.mem_cons, List.mem_cons]
      rcases List.mem_cons.mp h with hfirst | hrest
      · exact .inl hfirst
      · exact .inr (.inr (ih hrest))

theorem infix_of_mem_splitOn {s part : Bytes} {sep : UInt8} (h : part ∈ s.splitOn sep) :
    part <:+: s := by
  have hjoin : part <:+: [sep].intercalate (s.splitOn sep) :=
    List.infix_of_mem_flatten (mem_intersperse h)
  rwa [List.intercalate_splitOn] at hjoin

private theorem of_mem_intersperse {part sep : Bytes} {parts : List Bytes}
    (h : part ∈ parts.intersperse sep) : part ∈ parts ∨ part = sep := by
  induction parts with
  | nil => cases h
  | cons first rest ih =>
    cases rest with
    | nil => exact .inl h
    | cons second rest =>
      rw [List.intersperse_cons_cons, List.mem_cons, List.mem_cons] at h
      rcases h with hfirst | hsep | hrest
      · exact .inl (hfirst ▸ List.mem_cons_self)
      · exact .inr hsep
      · exact (ih hrest).imp_left (List.mem_cons_of_mem first)

theorem exists_mem_splitOn {s : Bytes} {b sep : UInt8} (h : b ∈ s) (hb : b ≠ sep) :
    ∃ part ∈ s.splitOn sep, b ∈ part := by
  have hjoin : b ∈ [sep].intercalate (s.splitOn sep) := by rwa [List.intercalate_splitOn]
  rw [List.intercalate, List.mem_flatten] at hjoin
  obtain ⟨part, hpart, hmem⟩ := hjoin
  rcases of_mem_intersperse hpart with hin | hsep
  · exact ⟨part, hin, hmem⟩
  · rw [hsep] at hmem
    exact absurd (List.mem_singleton.mp hmem) hb

/-- The bytes of a string as characters; those beyond ASCII stand for themselves. -/
def text (s : Bytes) : List Char := s.map fun b => Char.ofNat b.toNat

/-- The value of a non-empty string of decimal digits. -/
def digits (s : List Char) : Option Nat :=
  if s.isEmpty then none else
    s.foldl (fun n c => n.bind fun n => if c.isDigit then some (10 * n + (c.toNat - 48)) else none)
      (some 0)

/-- `strconv.Atoi`, which fails beyond 64 bits. -/
def atoi (s : List Char) : Option Int :=
  match s with
  | '-' :: s => (digits s).bind fun n => if n ≤ 2 ^ 63 then some (-(n : Int)) else none
  | '+' :: s => (digits s).bind fun n => if n < 2 ^ 63 then some (n : Int) else none
  | s => (digits s).bind fun n => if n < 2 ^ 63 then some (n : Int) else none

def ascii (s : String) : Bytes := s.toList.map fun c => c.toNat.toUInt8

def itoa (n : Int) : Bytes := ascii n.repr

private theorem text_map_ascii {s : List Char} (h : ∀ c ∈ s, c.toNat < 256) :
    text (s.map fun c => c.toNat.toUInt8) = s := by
  rw [text, List.map_map]
  conv_rhs => rw [← List.map_id s]
  apply List.map_congr_left
  intro c hc
  have hbyte : c.toNat.toUInt8.toNat = c.toNat := UInt8.toNat_ofNat_of_lt' (h c hc)
  simp [hbyte]

private theorem toNat_of_mem_toDigits {k : Nat} {c : Char} (hc : c ∈ Nat.toDigits 10 k) :
    48 ≤ c.toNat ∧ c.toNat ≤ 57 :=
  Char.isDigit_iff_toNat.mp (Nat.isDigit_of_mem_toDigits (by omega) (by omega) hc)

private theorem toList_repr_negSucc (k : Nat) :
    (Int.negSucc k).repr.toList = '-' :: Nat.toDigits 10 (k + 1) := by
  have hminus : (Int.negSucc k).repr = "-" ++ (k + 1).repr := rfl
  rw [hminus, String.toList_append, Nat.toList_repr]
  rfl

private theorem text_itoa_ofNat (k : Nat) : text (itoa (Int.ofNat k)) = Nat.toDigits 10 k := by
  have hrepr : (Int.ofNat k).repr.toList = Nat.toDigits 10 k := Nat.toList_repr
  rw [itoa, ascii, hrepr, text_map_ascii]
  intro c hc
  have hrange := toNat_of_mem_toDigits hc
  omega

private theorem text_itoa_negSucc (k : Nat) :
    text (itoa (Int.negSucc k)) = '-' :: Nat.toDigits 10 (k + 1) := by
  rw [itoa, ascii, toList_repr_negSucc, text_map_ascii]
  intro c hc
  rcases List.mem_cons.mp hc with rfl | hc
  · decide
  · have hrange := toNat_of_mem_toDigits hc
    omega

private theorem toDigits_injective {k l : Nat} (h : Nat.toDigits 10 k = Nat.toDigits 10 l) :
    k = l := by
  rw [← Nat.ofDigitChars_ten_toDigits (n := k), h, Nat.ofDigitChars_ten_toDigits]

private theorem toDigits_ne_minus (k l : Nat) : Nat.toDigits 10 k ≠ '-' :: Nat.toDigits 10 l := by
  intro h
  have hrange := toNat_of_mem_toDigits (k := k) (c := '-') (by rw [h]; exact List.mem_cons_self)
  exact absurd hrange.1 (by decide)

theorem itoa_injective : Function.Injective itoa := by
  intro m n h
  have htext := congrArg text h
  cases m with
  | ofNat k =>
    cases n with
    | ofNat l =>
      rw [text_itoa_ofNat, text_itoa_ofNat] at htext
      rw [toDigits_injective htext]
    | negSucc l =>
      rw [text_itoa_ofNat, text_itoa_negSucc] at htext
      exact absurd htext (toDigits_ne_minus k (l + 1))
  | negSucc k =>
    cases n with
    | ofNat l =>
      rw [text_itoa_ofNat, text_itoa_negSucc] at htext
      exact absurd htext.symm (toDigits_ne_minus l (k + 1))
    | negSucc l =>
      rw [text_itoa_negSucc, text_itoa_negSucc] at htext
      have hsucc := toDigits_injective (List.cons.inj htext).2
      rw [Nat.succ.inj hsucc]

theorem toString_int_injective {m n : Int} (h : toString m = toString n) : m = n :=
  itoa_injective (congrArg ascii h)

/-- A numeral has no characters but digits and the minus sign. -/
theorem not_mem_toString_int {c : Char} (hc : c.toNat < 45 ∨ 57 < c.toNat) (n : Int) :
    c ∉ (toString n).toList := by
  intro hmem
  have hdigit {k : Nat} (hmem : c ∈ Nat.toDigits 10 k) : False := by
    have hrange := toNat_of_mem_toDigits hmem
    omega
  cases n with
  | ofNat k =>
    have hrepr : (toString (Int.ofNat k)).toList = Nat.toDigits 10 k := Nat.toList_repr
    rw [hrepr] at hmem
    exact hdigit hmem
  | negSucc k =>
    have hrepr : (toString (Int.negSucc k)).toList = '-' :: Nat.toDigits 10 (k + 1) :=
      toList_repr_negSucc k
    rw [hrepr] at hmem
    rcases List.mem_cons.mp hmem with rfl | hmem
    · exact absurd hc (by decide)
    · exact hdigit hmem

theorem mem_itoa {b : UInt8} {n : Int} (h : b ∈ itoa n) : 45 ≤ b.toNat ∧ b.toNat ≤ 57 := by
  obtain ⟨c, hc, rfl⟩ := List.mem_map.1 h
  have hrange : ¬ (c.toNat < 45 ∨ 57 < c.toNat) := fun hout => not_mem_toString_int hout n hc
  have hsmall : c.toNat < 256 := by omega
  have hbyte : c.toNat.toUInt8.toNat = c.toNat := UInt8.toNat_ofNat_of_lt' hsmall
  omega

theorem toString_int_ne_nil (n : Int) : (toString n).toList ≠ [] := by
  cases n with
  | ofNat k =>
    have hrepr : (toString (Int.ofNat k)).toList = Nat.toDigits 10 k := Nat.toList_repr
    rw [hrepr]
    exact Nat.toDigits_ne_nil
  | negSucc k =>
    have hrepr : (toString (Int.negSucc k)).toList = '-' :: Nat.toDigits 10 (k + 1) :=
      toList_repr_negSucc k
    rw [hrepr]
    exact List.cons_ne_nil _ _

example : replaceAll "gc-%t-%t.log" "%t" "*" = "gc-*-*.log" := by decide

example : atoi "-17".toList = some (-17) ∧ atoi "9223372036854775808".toList = none := by decide

example : itoa (-17) = [45, 49, 55] ∧ atoi (text (itoa (-17))) = some (-17) := by decide

end YcAgent.Go
