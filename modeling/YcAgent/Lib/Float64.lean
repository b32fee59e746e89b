import Mathlib.Algebra.Order.Field.Rat
import Mathlib.Data.Finset.Max
import Mathlib.Order.Interval.Finset.Defs
import Mathlib.Data.Int.Interval
import Mathlib.Tactic.Linarith
import Mathlib.Tactic.Positivity

/-!
Numbers of 64 bits with a floating point, as the rationals they stand for. A
rounding takes every rational to a nearest one of them, whichever way ties are
broken. All that is used of it is that it keeps the order to numbers which are
representable themselves.
-/

namespace YcAgent.Lib.Float64

/-- A significand of 53 bits and an exponent. -/
def Representable (x : ℚ) : Prop :=
  ∃ m e : ℤ, |m| < 2 ^ 53 ∧ -1074 ≤ e ∧ e ≤ 971 ∧ x = m * 2 ^ e

theorem finite_representable : {x | Representable x}.Finite := by
  have hall := (Finset.Icc (-2 ^ 53 : ℤ) (2 ^ 53) ×ˢ Finset.Icc (-1074 : ℤ) 971).finite_toSet.image
    fun me : ℤ × ℤ => (me.1 : ℚ) * 2 ^ me.2
  apply hall.subset
  rintro x ⟨m, e, hm, hlow, hhigh, rfl⟩
  obtain ⟨hlow', hhigh'⟩ := abs_lt.1 hm
  refine ⟨(m, e), ?_, rfl⟩
  simp only [Finset.coe_product, Set.mem_prod, Finset.mem_coe, Finset.mem_Icc]
  exact ⟨⟨hlow'.le, hhigh'.le⟩, hlow, hhigh⟩

theorem representable_zero : Representable 0 :=
  ⟨0, 0, by norm_num, by norm_num, by norm_num, by simp⟩

structure Rounding where
  round : ℚ → ℚ
  representable : ∀ x, Representable (round x)
  nearest : ∀ x y, Representable y → |round x - x| ≤ |y - x|

theorem nonempty_rounding : Nonempty Rounding := by
  have hchoice : ∀ x : ℚ, ∃ y, Representable y ∧ ∀ z, Representable z → |y - x| ≤ |z - x| := by
    intro x
    obtain ⟨y, hy, hmin⟩ := finite_representable.toFinset.exists_min_image (fun y => |y - x|)
      ⟨0, by simpa using representable_zero⟩
    refine ⟨y, by simpa using hy, ?_⟩
    intro z hz
    exact hmin z (by simpa using hz)
  choose round hrep hnear using hchoice
  exact ⟨⟨round, hrep, hnear⟩⟩

namespace Rounding

variable (r : Rounding) {x a : ℚ}

theorem le_round (ha : Representable a) (hax : a ≤ x) : a ≤ r.round x := by
  by_contra hlt
  have hnear := r.nearest x a ha
  rw [abs_of_nonpos (by linarith), abs_of_nonpos (by linarith)] at hnear
  linarith

theorem round_le (ha : Representable a) (hxa : x ≤ a) : r.round x ≤ a := by
  by_contra hlt
  have hnear := r.nearest x a ha
  rw [abs_of_nonneg (by linarith), abs_of_nonneg (by linarith)] at hnear
  linarith

theorem round_eq (hx : Representable x) : r.round x = x :=
  le_antisymm (r.round_le hx le_rfl) (r.le_round hx le_rfl)

theorem exists_mul_sixteen (hx : Representable x) (hlow : 2 ^ 56 ≤ x) : ∃ k : ℤ, x = k * 16 := by
  obtain ⟨m, e, hm, _, _, rfl⟩ := hx
  have he : 4 ≤ e := by
    by_contra hlt
    have hpow : (2 : ℚ) ^ e ≤ 2 ^ (3 : ℤ) := zpow_le_zpow_right₀ (by norm_num) (by omega)
    have hm' : (m : ℚ) < 2 ^ 53 := by exact_mod_cast (abs_lt.1 hm).2
    have hpos : (0 : ℚ) < 2 ^ e := zpow_pos (by norm_num) e
    have hprod : (m : ℚ) * 2 ^ e < 2 ^ 53 * 2 ^ e := mul_lt_mul_of_pos_right hm' hpos
    have hle : (2 : ℚ) ^ 53 * 2 ^ e ≤ 2 ^ 53 * 2 ^ (3 : ℤ) := by gcongr
    norm_num at hle
    linarith
  refine ⟨m * 2 ^ (e - 4).toNat, ?_⟩
  have hsplit : (2 : ℚ) ^ e = 2 ^ (e - 4).toNat * 16 := by
    rw [← zpow_natCast, Int.toNat_of_nonneg (by omega), zpow_sub₀ (by norm_num)]
    norm_num
  push_cast
  rw [hsplit, mul_assoc]

end Rounding

/-- Numbers of at most `n` decimal digits, wherever the point stands. -/
def Digits (n : Nat) (q : ℚ) : Prop := ∃ m e : ℤ, |m| < 10 ^ n ∧ q = m * 10 ^ e

theorem exists_digits {x : ℚ} (hx : Representable x) : ∃ n, Digits n x := by
  obtain ⟨m, e, _, _, _, rfl⟩ := hx
  rcases le_total 0 e with he | he
  · refine ⟨(m * 2 ^ e.toNat).natAbs, m * 2 ^ e.toNat, 0, ?_, ?_⟩
    · rw [Int.abs_eq_natAbs]
      exact_mod_cast Nat.lt_pow_self (by norm_num)
    · push_cast
      rw [← zpow_natCast (2 : ℚ), Int.toNat_of_nonneg he]
      simp
  · refine ⟨(m * 5 ^ (-e).toNat).natAbs, m * 5 ^ (-e).toNat, e, ?_, ?_⟩
    · rw [Int.abs_eq_natAbs]
      exact_mod_cast Nat.lt_pow_self (by norm_num)
    · push_cast
      rw [← zpow_natCast (5 : ℚ), Int.toNat_of_nonneg (by omega), mul_assoc, zpow_neg, ← inv_zpow,
        ← mul_zpow]
      norm_num

/-- Decimal numbers to write for the representable ones: one that is read as the
number again, with as few digits as there can be. -/
structure Printing (r : Rounding) where
  shortest : ℚ → ℚ
  round_shortest : ∀ x, Representable x → r.round (shortest x) = x
  fewest : ∀ x n q, Representable x → Digits n q → r.round q = x → Digits n (shortest x)

theorem Digits.mono {n n' : Nat} {q : ℚ} (h : Digits n q) (hle : n ≤ n') : Digits n' q := by
  obtain ⟨m, e, hm, hq⟩ := h
  exact ⟨m, e, hm.trans_le (pow_le_pow_right₀ (by norm_num) hle), hq⟩

theorem nonempty_printing (r : Rounding) : Nonempty (Printing r) := by
  classical
  have hchoice : ∀ x, ∃ q, Representable x → r.round q = x ∧
      ∀ n q', Digits n q' → r.round q' = x → Digits n q := by
    intro x
    by_cases hx : Representable x
    · have hsome : ∃ n q, Digits n q ∧ r.round q = x := by
        obtain ⟨n, hn⟩ := exists_digits hx
        exact ⟨n, x, hn, r.round_eq hx⟩
      obtain ⟨q, hq, hround⟩ := Nat.find_spec hsome
      refine ⟨q, fun _ => ⟨hround, fun n q' hq' hround' => ?_⟩⟩
      exact hq.mono (Nat.find_min' hsome ⟨q', hq', hround'⟩)
    · exact ⟨0, fun h => absurd h hx⟩
  choose shortest hshort using hchoice
  exact ⟨⟨shortest, fun x hx => (hshort x hx).1, fun x n q hx => (hshort x hx).2 n q⟩⟩

end YcAgent.Lib.Float64
