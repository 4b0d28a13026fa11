import Mathlib.Algebra.Order.Field.Power
import Mathlib.Algebra.Order.Floor.Ring
import Mathlib.Data.Int.Log
import Mathlib.Data.Rat.Floor
import Mathlib.Tactic.Linarith
import Mathlib.Tactic.Positivity

/-!
Binary floating-point formats and rounding to nearest, ties to even, of numbers that are not
negative and far from the overflow threshold. Rounding is monotone, and exact on every
integer that the significand has room for; this is all that a bound on a computation by
comparisons needs.
-/

namespace Rounding

/-- The nearest integer; of two, the even one. -/
def nearest (x : ℚ) : ℤ :=
  if x - ⌊x⌋ < 1 / 2 ∨ x - ⌊x⌋ = 1 / 2 ∧ ⌊x⌋ % 2 = 0 then ⌊x⌋ else ⌊x⌋ + 1

theorem nearest_bounds (x : ℚ) : ⌊x⌋ ≤ nearest x ∧ nearest x ≤ ⌊x⌋ + 1 := by
  unfold nearest
  split <;> omega

@[simp] theorem nearest_intCast (n : ℤ) : nearest n = n := by
  simp [nearest]

theorem nearest_mono {x y : ℚ} (le : x ≤ y) : nearest x ≤ nearest y := by
  rcases (Int.floor_mono le).lt_or_eq with less | same
  · have below := (nearest_bounds x).2
    have above := (nearest_bounds y).1
    omega
  · unfold nearest
    rw [same]
    split
    · split <;> omega
    · rename_i up
      rw [if_neg]
      rintro (down | ⟨half, even⟩)
      · exact up (.inl (by linarith))
      · rcases le.lt_or_eq with less | equal
        · exact up (.inl (by linarith))
        · exact up (.inr ⟨by rw [equal, half], even⟩)

/-- The bits of the significand, and the exponent of the last one of the smallest numbers. -/
structure Format where
  precision : ℕ
  leastExponent : ℤ
  nonempty : 0 < precision

def binary64 : Format := ⟨53, -1074, by decide⟩

namespace Format

variable (format : Format)

/-- The exponent of the significand's last bit. -/
def exponent (x : ℚ) : ℤ :=
  max (Int.log 2 x - format.precision + 1) format.leastExponent

def round (x : ℚ) : ℚ :=
  nearest (x / 2 ^ format.exponent x) * 2 ^ format.exponent x

theorem two_zpow_div {low high : ℤ} (le : low ≤ high) :
    (2 : ℚ) ^ high / 2 ^ low = ((2 ^ (high - low).toNat : ℤ) : ℚ) := by
  rw [← zpow_sub₀ two_ne_zero, Int.cast_pow, Int.cast_ofNat, ← zpow_natCast,
    Int.toNat_of_nonneg (by omega)]

theorem two_zpow_split {low high : ℤ} (le : low ≤ high) :
    ((2 ^ (high - low).toNat : ℤ) : ℚ) * 2 ^ low = 2 ^ high := by
  rw [← two_zpow_div le, div_mul_cancel₀ _ (zpow_ne_zero _ two_ne_zero)]

variable {format}

theorem round_of_integer {x : ℚ} {n : ℤ} (whole : x / 2 ^ format.exponent x = n) :
    format.round x = x := by
  rw [round, whole, nearest_intCast, ← whole, div_mul_cancel₀ _ (zpow_ne_zero _ two_ne_zero)]

@[simp] theorem round_zero : format.round 0 = 0 := by
  simp [round, nearest]

theorem round_le_zpow {x : ℚ} {high : ℤ} (le : x ≤ 2 ^ high) (room : format.exponent x ≤ high) :
    format.round x ≤ 2 ^ high := by
  have scaled : x / 2 ^ format.exponent x ≤ ((2 ^ (high - format.exponent x).toNat : ℤ) : ℚ) := by
    rw [← two_zpow_div room]
    gcongr
  have rounded := nearest_mono scaled
  rw [nearest_intCast] at rounded
  calc format.round x
      ≤ ((2 ^ (high - format.exponent x).toNat : ℤ) : ℚ) * 2 ^ format.exponent x := by
        unfold round
        gcongr
    _ = 2 ^ high := two_zpow_split room

theorem zpow_le_round {x : ℚ} {high : ℤ} (le : 2 ^ high ≤ x) (room : format.exponent x ≤ high) :
    2 ^ high ≤ format.round x := by
  have scaled : ((2 ^ (high - format.exponent x).toNat : ℤ) : ℚ) ≤ x / 2 ^ format.exponent x := by
    rw [← two_zpow_div room]
    gcongr
  have rounded := nearest_mono scaled
  rw [nearest_intCast] at rounded
  calc (2 : ℚ) ^ high
      = ((2 ^ (high - format.exponent x).toNat : ℤ) : ℚ) * 2 ^ format.exponent x :=
        (two_zpow_split room).symm
    _ ≤ format.round x := by
        unfold round
        gcongr

theorem round_nonneg {x : ℚ} (nonneg : 0 ≤ x) : 0 ≤ format.round x := by
  have scaled : ((0 : ℤ) : ℚ) ≤ x / 2 ^ format.exponent x := by positivity
  have rounded := nearest_mono scaled
  rw [nearest_intCast] at rounded
  unfold round
  positivity

theorem round_mono {x y : ℚ} (nonneg : 0 ≤ x) (le : x ≤ y) : format.round x ≤ format.round y := by
  rcases nonneg.eq_or_lt with rfl | positive
  · rw [round_zero]
    exact round_nonneg le
  have logs : Int.log 2 x ≤ Int.log 2 y := Int.log_mono_right positive le
  by_cases same : format.exponent x = format.exponent y
  · have rounded : nearest (x / 2 ^ format.exponent x) ≤ nearest (y / 2 ^ format.exponent x) :=
      nearest_mono (by gcongr)
    rw [round, round, ← same]
    gcongr
  · -- the power of two under `y` is a number of both binades
    have nonempty := format.nonempty
    have apart : Int.log 2 x < Int.log 2 y ∧
        format.exponent y = Int.log 2 y - format.precision + 1 ∧
        format.exponent x < format.exponent y := by
      unfold exponent at same ⊢
      omega
    obtain ⟨logsApart, high, exponentsApart⟩ := apart
    have below : x ≤ 2 ^ Int.log 2 y :=
      (Int.lt_zpow_succ_log_self one_lt_two x).le.trans
        (zpow_le_zpow_right₀ one_le_two (by omega))
    have above : (2 : ℚ) ^ Int.log 2 y ≤ y := by
      exact_mod_cast Int.zpow_log_le_self one_lt_two (positive.trans_le le)
    calc format.round x
        ≤ 2 ^ Int.log 2 y := round_le_zpow (by exact_mod_cast below) (by omega)
      _ ≤ format.round y := zpow_le_round above (by omega)

/-- Integers that the significand has room for are exact. -/
theorem round_natCast {n : ℕ} (room : n < 2 ^ format.precision) (least : format.leastExponent ≤ 0) :
    format.round n = n := by
  rcases Nat.eq_zero_or_pos n with rfl | positive
  · simp
  have log : Int.log 2 (n : ℚ) < format.precision := by
    refine (Int.lt_zpow_iff_log_lt one_lt_two (by exact_mod_cast positive)).mp ?_
    exact_mod_cast room
  have exponent : format.exponent n ≤ 0 := by
    unfold Format.exponent
    omega
  refine @round_of_integer format n (n * 2 ^ (-format.exponent n).toNat) ?_
  rw [div_eq_mul_inv, ← zpow_neg, Int.cast_mul, Int.cast_natCast, Int.cast_pow, Int.cast_ofNat,
    ← zpow_natCast, Int.toNat_of_nonneg (by omega)]

section Bounds

variable {x : ℚ} {n : ℕ} (room : n < 2 ^ format.precision) (least : format.leastExponent ≤ 0)

include room least

theorem round_le_natCast (nonneg : 0 ≤ x) (le : x ≤ n) : format.round x ≤ n := by
  rw [← round_natCast room least]
  exact round_mono nonneg le

theorem natCast_le_round (le : (n : ℚ) ≤ x) : (n : ℚ) ≤ format.round x := by
  rw [← round_natCast room least]
  exact round_mono (Nat.cast_nonneg n) le

end Bounds

end Format

end Rounding
