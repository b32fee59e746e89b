import Mathlib.Data.Rat.Encodable
import Mathlib.Logic.Equiv.List
import YcAgent.Go.Json
import YcAgent.Go.Stream
import YcAgent.Lib.Float64

/-!
The package `encoding/json` as far as a document goes through `any`. Its grammar
is a parameter; what is said of it is what becomes of a document's value when it
is decoded and encoded again. A number is decoded as the nearest number of 64
bits, and it is an error if that is not finite; what is no character of a text is
decoded as the replacement character. A number is encoded with the fewest digits
that are decoded to it. Which order members stand in, and members that are hidden
by later ones, make no difference to the encoding.
-/

namespace YcAgent.Go

open Lib.Float64

def replacement : Char := '�'

def clean (s : Text) : Text := s.map fun c => some (c.getD replacement)

theorem clean_clean (s : Text) : clean (clean s) = clean s := by
  simp [clean]

def byteLength (s : Text) : Nat := (s.map fun c => (c.getD replacement).utf8Size).sum

/-- Numbers whose nearest number of 64 bits is finite. -/
def inRange (x : ℚ) : Bool := decide (|x| < 2 ^ 1024 - 2 ^ 970)

theorem inRange_of_le {x : ℚ} (h : |x| ≤ 2 ^ 64) : inRange x = true := by
  have hlow : (2 : ℚ) ^ 970 ≤ 2 ^ 1023 := pow_le_pow_right₀ (by norm_num) (by norm_num)
  have hhigh : (2 : ℚ) ^ 65 ≤ 2 ^ 1023 := pow_le_pow_right₀ (by norm_num) (by norm_num)
  have hdouble : (2 : ℚ) ^ 1024 = 2 ^ 1023 * 2 := pow_succ 2 1023
  have hx : |x| < (2 : ℚ) ^ 65 := h.trans_lt (by norm_num)
  rw [inRange, decide_eq_true_eq]
  calc |x| < 2 ^ 65 := hx
    _ ≤ 2 ^ 1023 := hhigh
    _ = 2 ^ 1024 - 2 ^ 1023 := by rw [hdouble, mul_two, add_sub_cancel_right]
    _ ≤ 2 ^ 1024 - 2 ^ 970 := sub_le_sub_left hlow _

structure Codec where
  rounding : Rounding
  printing : Printing rounding
  parse : Bytes → Option Json
  unmarshalErr : Bytes → String
  print : Json → Bytes
  parse_print : ∀ j, j.Stable rounding.round clean →
    ∃ j', parse (print j) = some j' ∧ j'.Same (j.recode printing.shortest id)
  print_same : ∀ a b : Json, a.Same b → print a = print b

namespace Codec

variable (codec : Codec)

def valid (data : Bytes) : Bool := (codec.parse data).isSome

def decode (j : Json) : Json := j.recode codec.rounding.round clean

/-- What a number becomes when it is decoded and encoded again. -/
def reprint (x : ℚ) : ℚ := codec.printing.shortest (codec.rounding.round x)

/-- `json.Unmarshal` into a variable of type `map[string]any`, which stays nil
when the document is null. -/
def unmarshalMap (data : Bytes) : Except String (Option (List (Text × Json))) :=
  match codec.parse data with
  | none => .error (codec.unmarshalErr data)
  | some j =>
    if j.allNums inRange then
      match codec.decode j with
      | .obj members => .ok (some members)
      | .null => .ok none
      | _ => .error (codec.unmarshalErr data)
    else .error (codec.unmarshalErr data)

theorem round_round (x : ℚ) :
    codec.rounding.round (codec.rounding.round x) = codec.rounding.round x :=
  codec.rounding.round_eq (codec.rounding.representable x)

theorem stable_decode (j : Json) : (codec.decode j).Stable codec.rounding.round clean :=
  Json.stable_recode codec.round_round clean_clean j

theorem recode_decode (j : Json) :
    (codec.decode j).recode codec.printing.shortest id = j.recode codec.reprint clean :=
  Json.recode_recode _ _ _ _ j

theorem unmarshalMap_ok_some {data : Bytes} {members : List (Text × Json)} :
    codec.unmarshalMap data = .ok (some members) ↔
      ∃ report, codec.parse data = some (.obj report) ∧ (Json.obj report).allNums inRange = true ∧
        members = Json.recodeMembers codec.rounding.round clean report := by
  unfold unmarshalMap
  cases hparse : codec.parse data with
  | none => simp
  | some j =>
    cases j with
    | obj report =>
      simp only [decode, Json.recode, Option.some.injEq, Json.obj.injEq, exists_eq_left']
      split
      case isTrue hrange =>
        simp only [hrange, true_and, Except.ok.injEq, Option.some.injEq]
        exact eq_comm
      case isFalse hrange => simp [hrange]
    | _ => simp only [decode, Json.recode]; split <;> simp

theorem unmarshalMap_ok_none {data : Bytes} :
    codec.unmarshalMap data = .ok none ↔ codec.parse data = some .null := by
  unfold unmarshalMap
  cases hparse : codec.parse data with
  | none => simp
  | some j =>
    cases j with
    | null => simp [Json.allNums, decode, Json.recode]
    | _ => simp only [decode, Json.recode]; split <;> simp

end Codec

private def codeText (s : Text) : Nat := Encodable.encode (s.map fun c => c.map Char.toNat)

private theorem codeText_injective : Function.Injective codeText := by
  intro s s' h
  have hmap := Encodable.encode_injective h
  apply List.map_injective_iff.2 _ hmap
  apply Option.map_injective
  intro c c' hc
  exact Char.ext (UInt32.toNat_inj.1 hc)

mutual

private def code : Json → Nat
  | .null => Nat.pair 0 0
  | .bool b => Nat.pair 1 (Encodable.encode b)
  | .num x => Nat.pair 2 (Encodable.encode x)
  | .str s => Nat.pair 3 (codeText s)
  | .arr elems => Nat.pair 4 (codeElems elems)
  | .obj members => Nat.pair 5 (codeMembers members)

private def codeElems : List Json → Nat
  | [] => 0
  | j :: rest => Nat.pair (code j) (codeElems rest) + 1

private def codeMembers : List (Text × Json) → Nat
  | [] => 0
  | (k, j) :: rest => Nat.pair (codeText k) (Nat.pair (code j) (codeMembers rest)) + 1

end

mutual

private theorem code_injective : ∀ a b : Json, code a = code b → a = b
  | .null, b, h => by
    cases b <;> simp_all [code, Nat.pair_eq_pair]
  | .bool x, b, h => by
    cases b <;> simp_all [code, Nat.pair_eq_pair]
  | .num x, b, h => by
    cases b <;> simp_all [code, Nat.pair_eq_pair]
  | .str s, b, h => by
    cases b <;> simp_all [code, Nat.pair_eq_pair, codeText_injective.eq_iff]
  | .arr elems, b, h => by
    cases b with
    | arr elems' =>
      simp only [code, Nat.pair_eq_pair, true_and] at h
      rw [codeElems_injective elems elems' h]
    | _ => simp [code, Nat.pair_eq_pair] at h
  | .obj members, b, h => by
    cases b with
    | obj members' =>
      simp only [code, Nat.pair_eq_pair, true_and] at h
      rw [codeMembers_injective members members' h]
    | _ => simp [code, Nat.pair_eq_pair] at h

private theorem codeElems_injective : ∀ a b : List Json, codeElems a = codeElems b → a = b
  | [], b, h => by
    cases b <;> simp_all [codeElems]
  | j :: rest, b, h => by
    cases b with
    | nil => simp [codeElems] at h
    | cons j' rest' =>
      simp only [codeElems, Nat.add_right_cancel_iff, Nat.pair_eq_pair] at h
      rw [code_injective j j' h.1, codeElems_injective rest rest' h.2]

private theorem codeMembers_injective :
    ∀ a b : List (Text × Json), codeMembers a = codeMembers b → a = b
  | [], b, h => by
    cases b <;> simp_all [codeMembers]
  | (k, j) :: rest, b, h => by
    cases b with
    | nil => simp [codeMembers] at h
    | cons m' rest' =>
      obtain ⟨k', j'⟩ := m'
      simp only [codeMembers, Nat.add_right_cancel_iff, Nat.pair_eq_pair] at h
      rw [codeText_injective h.1, code_injective j j' h.2.1,
        codeMembers_injective rest rest' h.2.2]

end

private def sameSetoid : Setoid Json := ⟨Json.Same, Json.Same.refl, Json.Same.symm, Json.Same.trans⟩

/-- One of the values that are the same as a given one. -/
private noncomputable def plain (j : Json) : Json := (Quotient.mk sameSetoid j).out

private theorem plain_same (j : Json) : (plain j).Same j :=
  Quotient.exact (s := sameSetoid) (Quotient.out_eq _)

private theorem plain_eq {a b : Json} (h : a.Same b) : plain a = plain b :=
  congrArg Quotient.out (Quotient.sound (s := sameSetoid) h)

private def document (j : Json) : Bytes := 0 :: List.replicate (code j) 1

private theorem document_injective : Function.Injective document := by
  intro a b h
  apply code_injective
  simpa [document] using congrArg List.length h

/-- Whatever the documents that do not start with a zero byte are to stand for, there
is a codec that parses them so. -/
theorem exists_codec (table : Bytes → Option Json) :
    ∃ codec : Codec, ∀ data, data.head? ≠ some 0 → codec.parse data = table data := by
  classical
  obtain ⟨rounding⟩ := nonempty_rounding
  obtain ⟨printing⟩ := nonempty_printing rounding
  let parse : Bytes → Option Json := fun data =>
    if h : ∃ j, document j = data then some h.choose else table data
  have hdocument : ∀ j, parse (document j) = some j := by
    intro j
    have h : ∃ j', document j' = document j := ⟨j, rfl⟩
    change dite _ _ _ = _
    rw [dif_pos h]
    exact congrArg some (document_injective h.choose_spec)
  refine ⟨⟨rounding, printing, parse, fun _ => "",
    fun j => document ((plain j).recode printing.shortest id), ?_, ?_⟩, ?_⟩
  · intro j _
    exact ⟨_, hdocument _, (plain_same j).recode_id _⟩
  · intro a b h
    exact congrArg (fun j => document (Json.recode printing.shortest id j)) (plain_eq h)
  · intro data hdata
    change dite _ _ _ = _
    rw [dif_neg]
    rintro ⟨j, rfl⟩
    exact hdata rfl

end YcAgent.Go
