import KafkaBroker.Lib.Crc
import Mathlib

/-!
Bit-reflected cyclic redundancy checks as polynomial division over the field of two
elements. Bit `i` of a register is the coefficient of degree `width - 1 - i`, so a step of
the register is a step of the division by the generator, and the register after a message
is the remainder of the message and its padding.
-/

namespace Crc

open Polynomial

def coefficient (bit : Bool) : ZMod 2 :=
  if bit then 1 else 0

noncomputable def toPolynomial {width : Nat} (crc : BitVec width) : (ZMod 2)[X] :=
  ofFn width fun index => coefficient (crc.getLsbD (width - 1 - index.val))

/-- The generator of degree `width`, from the reflected word without its leading term. -/
noncomputable def generator {width : Nat} (poly : BitVec width) : (ZMod 2)[X] :=
  X ^ width + toPolynomial poly

/-- The polynomial of a message, its first bit the coefficient of highest degree. -/
noncomputable def ofBits : List Bool → (ZMod 2)[X]
  | [] => 0
  | bit :: rest => C (coefficient bit) * X ^ rest.length + ofBits rest

def byteBits (value : UInt8) : List Bool :=
  (List.range 8).map fun index => value.toBitVec.getLsbD index

def messageBits (data : List UInt8) : List Bool :=
  data.flatMap byteBits

def complementFirst (count : Nat) (bits : List Bool) : List Bool :=
  (bits.take count).map not ++ bits.drop count

/-- The word whose bits are the coefficients, the one of highest degree first. -/
def reflect (width : Nat) (remainder : (ZMod 2)[X]) : BitVec width :=
  (BitVec.ofBoolListLE ((List.range width).map fun index =>
    decide (remainder.coeff (width - 1 - index) = 1))).setWidth width

variable {width : Nat}

/-! Coefficients. -/

@[simp]
theorem coefficient_false : coefficient false = 0 := by
  rfl

@[simp]
theorem coefficient_true : coefficient true = 1 := by
  rfl

theorem coefficient_xor (first second : Bool) :
    coefficient (first ^^ second) = coefficient first + coefficient second := by
  cases first <;> cases second <;> decide

theorem coefficient_eq_one (bit : Bool) : decide (coefficient bit = 1) = bit := by
  cases bit <;> decide

theorem toPolynomial_coeff {index : Nat} (crc : BitVec width) (inside : index < width) :
    (toPolynomial crc).coeff index = coefficient (crc.getLsbD (width - 1 - index)) := by
  rw [toPolynomial, ofFn_coeff_eq_val_of_lt _ inside]

theorem toPolynomial_coeff_of_ge {index : Nat} (crc : BitVec width) (outside : width ≤ index) :
    (toPolynomial crc).coeff index = 0 := by
  rw [toPolynomial, ofFn_coeff_eq_zero_of_ge _ outside]

theorem toPolynomial_xor (first second : BitVec width) :
    toPolynomial (first ^^^ second) = toPolynomial first + toPolynomial second := by
  ext index
  rw [coeff_add]
  by_cases inside : index < width
  · simp only [toPolynomial_coeff _ inside, BitVec.getLsbD_xor, coefficient_xor]
  · simp only [toPolynomial_coeff_of_ge _ (not_lt.mp inside), add_zero]

theorem degree_toPolynomial (crc : BitVec width) : (toPolynomial crc).degree < width :=
  ofFn_degree_lt _

theorem generator_monic (poly : BitVec width) : (generator poly).Monic :=
  monic_X_pow_add (degree_toPolynomial poly)

theorem degree_generator (poly : BitVec width) : (generator poly).degree = width := by
  have leading : ((X : (ZMod 2)[X]) ^ width).degree = width := degree_X_pow width
  rw [generator, degree_add_eq_left_of_degree_lt, leading]
  rw [leading]
  exact degree_toPolynomial poly

theorem reflect_toPolynomial (crc : BitVec width) : reflect width (toPolynomial crc) = crc := by
  apply BitVec.eq_of_getLsbD_eq
  intro index inside
  have back : width - 1 - (width - 1 - index) = index := by omega
  have coeff := toPolynomial_coeff crc (by omega : width - 1 - index < width)
  rw [back] at coeff
  simp only [reflect, BitVec.getLsbD_setWidth, BitVec.getLsbD_ofBoolListLE, inside, decide_true,
    Bool.true_and, List.getD_eq_getElem?_getD, List.getElem?_map, List.getElem?_range, coeff,
    Option.map_some, Option.getD_some, coefficient_eq_one]

/-! A message. -/

theorem ofBits_append (first second : List Bool) :
    ofBits (first ++ second) = ofBits first * X ^ second.length + ofBits second := by
  induction first with
  | nil => simp [ofBits]
  | cons bit rest ih =>
      simp only [List.cons_append, ofBits, ih, List.length_append, pow_add]
      ring

theorem ofBits_replicate_false (count : Nat) : ofBits (List.replicate count false) = 0 := by
  induction count with
  | zero => rfl
  | succ count ih => simp [List.replicate_succ, ofBits, ih]

theorem ofBits_map_not (bits : List Bool) :
    ofBits (bits.map not) = ofBits bits + ofBits (List.replicate bits.length true) := by
  induction bits with
  | nil => simp [ofBits]
  | cons bit rest ih =>
      have flipped : coefficient (!bit) = coefficient bit + coefficient true := by
        cases bit <;> decide
      simp only [List.map_cons, List.length_cons, List.replicate_succ, ofBits, List.length_map,
        List.length_replicate, flipped, C_add, ih]
      ring

theorem ofBits_complementFirst {count : Nat} {bits : List Bool} (long : count ≤ bits.length) :
    ofBits (complementFirst count bits) =
      ofBits (List.replicate count true) * X ^ (bits.length - count) + ofBits bits := by
  have whole : ofBits bits =
      ofBits (bits.take count) * X ^ (bits.length - count) + ofBits (bits.drop count) := by
    calc ofBits bits
        = ofBits (bits.take count ++ bits.drop count) := by rw [List.take_append_drop]
      _ = _ := by rw [ofBits_append, List.length_drop]
  rw [complementFirst, ofBits_append, ofBits_map_not, List.length_take, List.length_drop,
    Nat.min_eq_left long, whole]
  ring

theorem byteBits_length (value : UInt8) : (byteBits value).length = 8 := by
  rfl

theorem messageBits_length (data : List UInt8) : (messageBits data).length = 8 * data.length := by
  induction data with
  | nil => rfl
  | cons value rest ih =>
      rw [messageBits, List.flatMap_cons, List.length_append, byteBits_length, ← messageBits, ih,
        List.length_cons]
      omega

theorem ofBits_coeff (bits : List Bool) (index : Nat) :
    (ofBits bits).coeff index = coefficient (bits.reverse.getD index false) := by
  induction bits with
  | nil => simp [ofBits]
  | cons bit rest ih =>
      rw [ofBits, coeff_add, coeff_C_mul_X_pow, ih, List.reverse_cons]
      rcases Nat.lt_trichotomy index rest.length with below | last | above
      · have inside : index < rest.reverse.length := by simpa using below
        simp [below.ne, List.getElem?_append_left inside]
      · simp [last]
      · have outside : rest.reverse.length ≤ index := by simpa using above.le
        simp [above.ne', List.getElem?_append_right outside, above.le,
          show index - rest.length ≠ 0 by omega]

theorem ofBits_bits (crc : BitVec width) :
    ofBits ((List.range width).map fun index => crc.getLsbD index) = toPolynomial crc := by
  ext index
  rw [ofBits_coeff]
  by_cases inside : index < width
  · simp [toPolynomial_coeff _ inside, inside]
  · simp [toPolynomial_coeff_of_ge _ (not_lt.mp inside), inside]

theorem toPolynomial_allOnes :
    toPolynomial (BitVec.allOnes width) = ofBits (List.replicate width true) := by
  rw [← ofBits_bits]
  congr 1
  apply List.ext_getElem
  · simp
  · intro index inside _
    have bound : index < width := by simpa using inside
    simp [bound]

theorem toPolynomial_byte (value : UInt8) (wide : 8 ≤ width) :
    toPolynomial (value.toBitVec.setWidth width) = ofBits (byteBits value) * X ^ (width - 8) := by
  have bits : (List.range width).map (fun index => (value.toBitVec.setWidth width).getLsbD index) =
      byteBits value ++ List.replicate (width - 8) false := by
    apply List.ext_getElem
    · simp [byteBits_length]
      omega
    · intro index inside _
      have bound : index < width := by simpa using inside
      by_cases low : index < 8
      · rw [List.getElem_append_left (by simpa [byteBits_length] using low)]
        simp [byteBits, bound]
      · have clear : value.toBitVec.getLsbD index = false := BitVec.getLsbD_of_ge _ _ (by omega)
        rw [List.getElem_append_right (by simpa [byteBits_length] using low)]
        simp [clear]
  rw [← ofBits_bits, bits, ofBits_append, ofBits_replicate_false, List.length_replicate, add_zero]

/-! The division. -/

variable (poly : BitVec width)

theorem X_mul_toPolynomial (crc : BitVec width) : X * toPolynomial crc =
    C (coefficient (crc.getLsbD 0)) * X ^ width + toPolynomial (crc >>> 1) := by
  ext index
  rw [coeff_add, coeff_C_mul_X_pow]
  cases index with
  | zero =>
      cases width with
      | zero => simp [BitVec.of_length_zero, toPolynomial_coeff_of_ge _ (Nat.le_refl 0)]
      | succ width => simp [toPolynomial_coeff (crc >>> 1) (Nat.succ_pos width)]
  | succ index =>
      rw [coeff_X_mul]
      rcases Nat.lt_trichotomy (index + 1) width with below | last | above
      · have place : 1 + (width - 1 - (index + 1)) = width - 1 - index := by omega
        rw [toPolynomial_coeff crc (by omega), toPolynomial_coeff _ below, if_neg below.ne,
          zero_add, BitVec.getLsbD_ushiftRight, place]
      · rw [toPolynomial_coeff crc (by omega), toPolynomial_coeff_of_ge _ last.ge, if_pos last,
          add_zero]
        congr 2
        omega
      · rw [toPolynomial_coeff_of_ge crc (by omega), toPolynomial_coeff_of_ge _ above.le,
          if_neg above.ne', add_zero]

theorem division_bit (crc : BitVec width) :
    X * toPolynomial crc =
      generator poly * C (coefficient (crc.getLsbD 0)) + toPolynomial (bit poly crc) := by
  rw [X_mul_toPolynomial, generator, bit]
  cases crc.getLsbD 0 with
  | false => simp
  | true =>
      -- in characteristic two the subtracted generator is the one added
      have twice := CharTwo.add_self_eq_zero (toPolynomial poly)
      simp only [coefficient_true, C_1, one_mul, mul_one, if_true, toPolynomial_xor]
      linear_combination -twice

theorem division_iterate (count : Nat) (crc : BitVec width) :
    ∃ quotient, X ^ count * toPolynomial crc =
      generator poly * quotient + toPolynomial ((bit poly)^[count] crc) := by
  induction count with
  | zero => exact ⟨0, by simp⟩
  | succ count ih =>
      obtain ⟨quotient, divided⟩ := ih
      refine ⟨X * quotient + C (coefficient (((bit poly)^[count] crc).getLsbD 0)), ?_⟩
      rw [Function.iterate_succ_apply', pow_succ', mul_assoc, divided, mul_add, division_bit poly]
      ring

theorem division_byte (wide : 8 ≤ width) (crc : BitVec width) (value : UInt8) :
    ∃ quotient, X ^ 8 * toPolynomial crc + X ^ width * ofBits (byteBits value) =
      generator poly * quotient + toPolynomial (byte poly crc value) := by
  obtain ⟨quotient, divided⟩ := division_iterate poly 8 (crc ^^^ value.toBitVec.setWidth width)
  refine ⟨quotient, ?_⟩
  have degrees : (X : (ZMod 2)[X]) ^ width = X ^ 8 * X ^ (width - 8) := by
    rw [← pow_add, Nat.add_sub_cancel' wide]
  rw [byte, ← divided, toPolynomial_xor, toPolynomial_byte value wide, degrees]
  ring

/-- The register carries the remainder of what has been read. -/
theorem division_foldl (wide : 8 ≤ width) (crc : BitVec width) (data : List UInt8) :
    ∃ quotient, X ^ (8 * data.length) * toPolynomial crc + X ^ width * ofBits (messageBits data) =
      generator poly * quotient + toPolynomial (data.foldl (byte poly) crc) := by
  induction data generalizing crc with
  | nil => exact ⟨0, by simp [messageBits, ofBits]⟩
  | cons value rest ih =>
      obtain ⟨first, head⟩ := division_byte poly wide crc value
      obtain ⟨later, tail⟩ := ih (byte poly crc value)
      refine ⟨X ^ (8 * rest.length) * first + later, ?_⟩
      have message : ofBits (messageBits (value :: rest)) =
          ofBits (byteBits value) * X ^ (8 * rest.length) + ofBits (messageBits rest) := by
        rw [messageBits, List.flatMap_cons, ← messageBits, ofBits_append, messageBits_length]
      have degrees : (X : (ZMod 2)[X]) ^ (8 * (rest.length + 1)) = X ^ (8 * rest.length) * X ^ 8 := by
        rw [← pow_add]
        congr 1
      calc X ^ (8 * (rest.length + 1)) * toPolynomial crc +
            X ^ width * ofBits (messageBits (value :: rest))
          = X ^ (8 * rest.length) * (X ^ 8 * toPolynomial crc + X ^ width * ofBits (byteBits value)) +
              X ^ width * ofBits (messageBits rest) := by
            rw [message, degrees]
            ring
        _ = generator poly * (X ^ (8 * rest.length) * first) +
              (X ^ (8 * rest.length) * toPolynomial (byte poly crc value) +
                X ^ width * ofBits (messageBits rest)) := by
            rw [head]
            ring
        _ = generator poly * (X ^ (8 * rest.length) * first + later) +
              toPolynomial (rest.foldl (byte poly) (byte poly crc value)) := by
            rw [tail]
            ring

theorem modByMonic_message (wide : 8 ≤ width) (data : List UInt8) :
    ofBits (complementFirst width (messageBits data ++ List.replicate width false)) %ₘ
      generator poly = toPolynomial (data.foldl (byte poly) (BitVec.allOnes width)) := by
  obtain ⟨quotient, divided⟩ := division_foldl poly wide (BitVec.allOnes width) data
  refine (div_modByMonic_unique quotient _ (generator_monic poly) ⟨?_, ?_⟩).2
  · rw [ofBits_complementFirst (by simp), ofBits_append, ofBits_replicate_false,
      List.length_append, messageBits_length, List.length_replicate, Nat.add_sub_cancel,
      ← toPolynomial_allOnes, add_comm, ← divided]
    ring
  · rw [degree_generator]
    exact degree_toPolynomial _

end Crc
