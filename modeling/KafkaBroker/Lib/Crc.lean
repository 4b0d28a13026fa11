import Mathlib.Logic.Function.Iterate

/-!
Bit-reflected cyclic redundancy checks of any width. A step of the register is linear
and, for a polynomial with its top bit set, injective; the bytes of a burst that fits the
register can therefore be recovered from the register before and after it, so two inputs
that differ in one such burst only have different checks.
-/

namespace Crc

variable {width : Nat} (poly : BitVec width)

def bit (crc : BitVec width) : BitVec width :=
  if crc.getLsbD 0 then (crc >>> 1) ^^^ poly else crc >>> 1

def byte (crc : BitVec width) (value : UInt8) : BitVec width :=
  (bit poly)^[8] (crc ^^^ value.toBitVec.setWidth width)

/-! One step. -/

theorem xor_xor_xor_cancel (first second mask : BitVec width) :
    (first ^^^ mask) ^^^ (second ^^^ mask) = first ^^^ second := by
  rw [BitVec.xor_assoc, ← BitVec.xor_assoc mask second mask, BitVec.xor_comm mask second,
    BitVec.xor_assoc, BitVec.xor_self, BitVec.xor_zero]

theorem bit_xor (first second : BitVec width) :
    bit poly (first ^^^ second) = bit poly first ^^^ bit poly second := by
  simp only [bit, BitVec.getLsbD_xor, BitVec.ushiftRight_xor_distrib]
  cases first.getLsbD 0 with
  | false =>
      cases second.getLsbD 0 with
      | false => simp
      | true => simp [BitVec.xor_assoc]
  | true =>
      cases second.getLsbD 0 with
      | false =>
          simp only [Bool.xor_false, if_true, Bool.false_eq_true, if_false]
          rw [BitVec.xor_assoc, BitVec.xor_comm (second >>> 1) poly, ← BitVec.xor_assoc]
      | true =>
          simp only [Bool.xor_true, Bool.not_true, Bool.false_eq_true, if_false, if_true]
          rw [xor_xor_xor_cancel]

theorem bit_eq_zero {crc : BitVec width} (top : poly.getLsbD (width - 1) = true)
    (zero : bit poly crc = BitVec.ofNat width 0) : crc = BitVec.ofNat width 0 := by
  have nonempty : 0 < width := by
    by_contra none
    rw [BitVec.getLsbD_of_ge _ _ (by omega)] at top
    simp at top
  simp only [bit] at zero
  by_cases low : crc.getLsbD 0 = true
  · -- the polynomial brings in the top bit, which the shift has cleared
    rw [if_pos low] at zero
    have topBit := congrArg (fun value => value.getLsbD (width - 1)) zero
    have cleared : crc.getLsbD (1 + (width - 1)) = false := BitVec.getLsbD_of_ge _ _ (by omega)
    simp [cleared, top] at topBit
  · rw [if_neg low] at zero
    apply BitVec.eq_of_getLsbD_eq
    intro index bound
    cases index with
    | zero => simpa using low
    | succ index =>
        have shifted := congrArg (fun value => value.getLsbD index) zero
        rw [Nat.add_comm]
        simpa using shifted

theorem bit_injective (top : poly.getLsbD (width - 1) = true) : Function.Injective (bit poly) := by
  intro first second same
  have zero : first ^^^ second = BitVec.ofNat width 0 := by
    apply bit_eq_zero poly top
    rw [bit_xor, same, BitVec.xor_self]
  exact BitVec.xor_eq_zero_iff.mp zero

/-! Several steps. -/

theorem iterate_bit_xor (count : Nat) (first second : BitVec width) :
    (bit poly)^[count] (first ^^^ second) =
      (bit poly)^[count] first ^^^ (bit poly)^[count] second := by
  induction count generalizing first second with
  | zero => rfl
  | succ count ih =>
      rw [Function.iterate_succ_apply, bit_xor, ih]
      rfl

theorem iterate_bit_shift {crc : BitVec width} (count : Nat)
    (clear : ∀ index < count, crc.getLsbD index = false) :
    (bit poly)^[count] crc = crc >>> count := by
  induction count with
  | zero => simp
  | succ count ih =>
      have low : (crc >>> count).getLsbD 0 = false := by
        simpa using clear count (by omega)
      rw [Function.iterate_succ_apply', ih fun index bound => clear index (by omega), bit, low]
      simp [BitVec.shiftRight_add]

/-! Bytes. -/

/-- The bytes of a burst in the order in which they enter the register. -/
def word (width : Nat) : List UInt8 → BitVec width
  | [] => BitVec.ofNat width 0
  | value :: rest => value.toBitVec.setWidth width ^^^ (word width rest <<< 8)

theorem word_high (values : List UInt8) {index : Nat} (above : 8 * values.length ≤ index) :
    (word width values).getLsbD index = false := by
  induction values generalizing index with
  | nil => simp [word]
  | cons value rest ih =>
      rw [List.length_cons] at above
      have tail := ih (by omega : 8 * rest.length ≤ index - 8)
      have head : value.toBitVec.getLsbD index = false := BitVec.getLsbD_of_ge _ _ (by omega)
      simp [word, tail, head]

theorem foldl_byte {values : List UInt8} (fits : 8 * values.length ≤ width)
    (crc : BitVec width) : values.foldl (byte poly) crc =
      (bit poly)^[8 * values.length] (crc ^^^ word width values) := by
  induction values generalizing crc with
  | nil => simp [word]
  | cons value rest ih =>
      rw [List.length_cons] at fits
      have clear : ∀ index < 8, (word width rest <<< 8).getLsbD index = false := by
        intro index bound
        simp [bound]
      have down : (bit poly)^[8] (word width rest <<< 8) = word width rest := by
        rw [iterate_bit_shift poly 8 clear]
        apply BitVec.eq_of_getLsbD_eq
        intro index bound
        rw [BitVec.getLsbD_ushiftRight, BitVec.getLsbD_shiftLeft]
        by_cases inside : 8 + index < width
        · simp only [inside, show ¬8 + index < 8 by omega, decide_true, decide_false,
            Bool.not_false, Bool.and_self, Bool.true_and, Nat.add_sub_cancel_left]
        · have high : (word width rest).getLsbD index = false := word_high rest (by omega)
          simp [inside, high]
      calc rest.foldl (byte poly) (byte poly crc value)
          = (bit poly)^[8 * rest.length] (byte poly crc value ^^^ word width rest) :=
            ih (by omega) _
        _ = (bit poly)^[8 * rest.length] ((bit poly)^[8] (crc ^^^ word width (value :: rest))) := by
            rw [word, ← BitVec.xor_assoc, iterate_bit_xor poly 8, down]
            rfl
        _ = (bit poly)^[8 * (rest.length + 1)] (crc ^^^ word width (value :: rest)) := by
            rw [← Function.iterate_add_apply]
            rfl

theorem word_injective {first second : List UInt8} (sameLength : first.length = second.length)
    (fits : 8 * first.length ≤ width) (same : word width first = word width second) :
    first = second := by
  induction first generalizing second with
  | nil => exact (List.length_eq_zero_iff.mp sameLength.symm).symm
  | cons value rest ih =>
      cases second with
      | nil => simp at sameLength
      | cons other others =>
          rw [List.length_cons] at fits
          simp only [List.length_cons, Nat.add_right_cancel_iff] at sameLength
          have bits (index : Nat) := congrArg (fun value => value.getLsbD index) same
          simp only [word, BitVec.getLsbD_xor, BitVec.getLsbD_setWidth, BitVec.getLsbD_shiftLeft]
            at bits
          have heads : value = other := by
            apply UInt8.toBitVec_inj.mp
            apply BitVec.eq_of_getLsbD_eq
            intro index bound
            have lowBit := bits index
            simpa [bound, show index < width by omega] using lowBit
          have tails : word width rest = word width others := by
            apply BitVec.eq_of_getLsbD_eq
            intro index bound
            by_cases inside : index + 8 < width
            · have highBit := bits (index + 8)
              rw [heads, Bool.xor_right_inj] at highBit
              simpa [inside, show ¬index + 8 < 8 by omega] using highBit
            · rw [word_high rest (by omega), word_high others (by omega)]
          rw [heads, ih sameLength (by omega) tails]

theorem foldl_byte_state_injective (top : poly.getLsbD (width - 1) = true) (values : List UInt8) :
    Function.Injective fun crc => values.foldl (byte poly) crc := by
  induction values with
  | nil => exact fun _ _ same => same
  | cons value rest ih =>
      intro first second same
      have stepped := (bit_injective poly top).iterate 8 (ih same)
      exact (BitVec.xor_left_inj _).mp stepped

/-- A burst that fits the register changes it, whatever follows. -/
theorem foldl_burst (top : poly.getLsbD (width - 1) = true) (crc : BitVec width)
    (before after : List UInt8) {first second : List UInt8}
    (sameLength : first.length = second.length) (fits : 8 * first.length ≤ width)
    (same : (before ++ (first ++ after)).foldl (byte poly) crc =
      (before ++ (second ++ after)).foldl (byte poly) crc) : first = second := by
  simp only [List.foldl_append] at same
  have states := foldl_byte_state_injective poly top after same
  have otherFits : 8 * second.length ≤ width := sameLength ▸ fits
  generalize before.foldl (byte poly) crc = state at states
  rw [foldl_byte poly fits, foldl_byte poly otherFits, sameLength] at states
  have words := (bit_injective poly top).iterate _ states
  exact word_injective sameLength fits ((BitVec.xor_right_inj _).mp words)

/-! Bursts. -/

/-- A change of some bytes, all of them among the `size` bytes from `start` on. -/
structure Burst (start size : Nat) (before after : List UInt8) : Prop where
  sameLength : after.length = before.length
  outside : ∀ index, index < start ∨ start + size ≤ index → after[index]? = before[index]?
  changed : after ≠ before

theorem Burst.split {start size : Nat} {first old last after : List UInt8}
    (burst : Burst start size (first ++ (old ++ last)) after) (starts : first.length = start)
    (sized : old.length = size) :
    ∃ new, new.length = old.length ∧ new ≠ old ∧ after = first ++ (new ++ last) := by
  have long := burst.sameLength
  simp only [List.length_append] at long
  have ahead : after.take start = first := by
    apply List.ext_getElem?
    intro index
    rw [List.getElem?_take]
    split
    · rename_i below
      rw [burst.outside index (Or.inl below), List.getElem?_append_left (by omega)]
    · rw [List.getElem?_eq_none (by omega)]
  have behind : after.drop (start + size) = last := by
    apply List.ext_getElem?
    intro index
    rw [List.getElem?_drop, burst.outside _ (Or.inr (by omega)),
      List.getElem?_append_right (by omega), List.getElem?_append_right (by omega)]
    congr 1
    omega
  have joined : after = first ++ ((after.drop start).take size ++ last) := by
    calc after
        = after.take start ++ after.drop start := (List.take_append_drop start after).symm
      _ = first ++ ((after.drop start).take size ++ (after.drop start).drop size) := by
          rw [ahead, List.take_append_drop]
      _ = first ++ ((after.drop start).take size ++ last) := by
          rw [List.drop_drop, behind]
  refine ⟨(after.drop start).take size, ?_, ?_, joined⟩
  · rw [List.length_take, List.length_drop]
    omega
  · intro same
    rw [same] at joined
    exact burst.changed joined

end Crc
