import Mathlib.Data.List.Basic
import Mathlib.Data.List.TakeWhile
import Mathlib.Tactic.Positivity

/-!
Byte strings as C++ text streams see them: whitespace-delimited extraction, the
rest of a line, decimal rendering and the `strtol` family of integer parsers.
-/

namespace ByteText

abbrev Byte := UInt8

abbrev Bytes := List Byte

def ascii (text : String) : Bytes := text.toList.map fun char => UInt8.ofNat char.toNat

def space : Byte := 32

def newline : Byte := 10

def isSpace (byte : Byte) : Bool := byte = 32 || (9 ≤ byte && byte ≤ 13)

def isDigit (byte : Byte) : Bool := 48 ≤ byte && byte ≤ 57

/-! Extraction with `>>` and `std::getline`. -/

/-- `stream >> word`: skip whitespace, take the following word; `none` when the
stream has no word left. -/
def extract (stream : Bytes) : Option (Bytes × Bytes) :=
  match stream.dropWhile isSpace with
  | [] => none
  | byte :: rest =>
      some ((byte :: rest).takeWhile (fun next => !isSpace next),
        (byte :: rest).dropWhile (fun next => !isSpace next))

/-- The text `std::getline` stores. -/
def getline (stream : Bytes) : Bytes := stream.takeWhile fun byte => byte ≠ newline

/-- The maximal non-empty runs of non-separators. -/
def fields (separator : Byte → Bool) (text : Bytes) : List Bytes :=
  (text.splitOnP separator).filter fun field => field ≠ []

def spaced (words : List Bytes) : Bytes := words.flatMap fun word => space :: word

/-! Numbers. -/

def decimal (number : Nat) : Bytes :=
  (Nat.toDigits 10 number).map fun char => UInt8.ofNat char.toNat

def decimalInt (number : Int) : Bytes :=
  if number < 0 then 45 :: decimal number.natAbs else decimal number.natAbs

def digitsValue (digits : Bytes) : Nat :=
  digits.foldl (fun total digit => 10 * total + (digit.toNat - 48)) 0

/-- Sign, magnitude and number of bytes read by `strtol` and its relatives in
base 10; `none` when there is no conversion. -/
def scanInteger (text : Bytes) : Option (Bool × Nat × Nat) :=
  let body := text.dropWhile isSpace
  let skipped := text.length - body.length
  let negative := body.head? = some 45
  let signed := negative || body.head? = some 43
  let unsigned := if signed then body.tail else body
  let digits := unsigned.takeWhile isDigit
  if digits = [] then none
  else some (negative, digitsValue digits,
    skipped + (if signed then 1 else 0) + digits.length)

/-- A signed parser for the given width: the value and the position after it, or
`none` where the C++ function throws. -/
def scanSigned (bits : Nat) (text : Bytes) : Option (Int × Nat) :=
  match scanInteger text with
  | none => none
  | some (negative, magnitude, position) =>
      let value : Int := if negative then -magnitude else magnitude
      if -2 ^ (bits - 1) ≤ value ∧ value < 2 ^ (bits - 1) then some (value, position)
      else none

def stoi (text : Bytes) : Option (Int × Nat) := scanSigned 32 text

def stoll (text : Bytes) : Option (Int × Nat) := scanSigned 64 text

/-- `std::stoull`: a minus sign negates modulo `2 ^ 64`. -/
def stoull (text : Bytes) : Option (Nat × Nat) :=
  match scanInteger text with
  | none => none
  | some (negative, magnitude, position) =>
      if magnitude < 2 ^ 64 then
        some (if negative then (2 ^ 64 - magnitude) % 2 ^ 64 else magnitude, position)
      else none

def joinLines (lines : List Bytes) : Bytes := List.intercalate [newline] lines

def splitLines (text : Bytes) : List Bytes := text.splitOn newline

/-! Words and whitespace. -/

@[simp] theorem isSpace_space : isSpace space = true := by
  decide

theorem isSpace_eq_false_of_isDigit {byte : Byte} (digit : isDigit byte = true) :
    isSpace byte = false := by
  simp only [isDigit, Bool.and_eq_true, decide_eq_true_eq, UInt8.le_iff_toNat_le] at digit
  have large : ¬byte.toNat ≤ 13 := by
    have lower : (48 : UInt8).toNat = 48 := rfl
    omega
  have notBlank : byte ≠ 32 := by
    intro equal
    subst equal
    revert digit
    decide
  simp only [isSpace, notBlank, decide_false, Bool.false_or, Bool.and_eq_false_imp,
    decide_eq_true_eq, decide_eq_false_iff_not, UInt8.le_iff_toNat_le]
  exact fun _ upper => large upper

def Word (text : Bytes) : Prop := text ≠ [] ∧ ∀ byte ∈ text, isSpace byte = false

instance (text : Bytes) : Decidable (Word text) := inferInstanceAs (Decidable (_ ∧ _))

/-- A stream position at which a word has ended. -/
def AtGap (stream : Bytes) : Prop := ∀ byte ∈ stream.head?, isSpace byte = true

@[simp] theorem atGap_nil : AtGap [] := by
  simp [AtGap]

@[simp] theorem atGap_cons (byte : Byte) (rest : Bytes) :
    AtGap (byte :: rest) ↔ isSpace byte = true := by
  simp [AtGap]

theorem extract_space_cons {byte : Byte} (blank : isSpace byte = true) (rest : Bytes) :
    extract (byte :: rest) = extract rest := by
  simp [extract, blank]

theorem extract_word {word rest : Bytes} (isWord : Word word) (gap : AtGap rest) :
    extract (word ++ rest) = some (word, rest) := by
  obtain ⟨nonempty, noSpace⟩ := isWord
  cases word with
  | nil => exact absurd rfl nonempty
  | cons byte tail =>
      have head : isSpace byte = false := noSpace byte (by simp)
      have kept : ∀ next ∈ byte :: tail, (!isSpace next) = true := by
        intro next member
        simp [noSpace next member]
      simp only [extract, List.cons_append, head, Bool.false_eq_true, not_false_eq_true,
        List.dropWhile_cons_of_neg]
      rw [← List.cons_append, List.takeWhile_append_of_pos kept,
        List.dropWhile_append_of_pos kept]
      cases rest with
      | nil => simp
      | cons next others =>
          rw [atGap_cons] at gap
          simp [gap]

theorem spaced_cons (word : Bytes) (words : List Bytes) :
    spaced (word :: words) = space :: (word ++ spaced words) := by
  simp [spaced]

@[simp] theorem atGap_spaced (words : List Bytes) : AtGap (spaced words) := by
  cases words with
  | nil => exact atGap_nil
  | cons word words => simp [spaced_cons]

theorem extract_spaced {word : Bytes} (isWord : Word word) (words : List Bytes) :
    extract (spaced (word :: words)) = some (word, spaced words) := by
  rw [spaced_cons, extract_space_cons isSpace_space]
  exact extract_word isWord (atGap_spaced words)

theorem intercalate_space (word : Bytes) (words : List Bytes) :
    List.intercalate [space] (word :: words) = word ++ spaced words := by
  induction words generalizing word with
  | nil => simp [spaced]
  | cons next rest ih =>
      rw [List.intercalate_cons_cons, ih next, spaced_cons, List.append_assoc]
      rfl

theorem extract_spec {stream word rest : Bytes} (found : extract stream = some (word, rest)) :
    Word word ∧ AtGap rest ∧
      ∃ skipped, (∀ byte ∈ skipped, isSpace byte = true) ∧ stream = skipped ++ word ++ rest := by
  simp only [extract] at found
  split at found
  · simp at found
  · rename_i byte tail dropped
    simp only [Option.some.injEq, Prod.mk.injEq] at found
    obtain ⟨wordEq, restEq⟩ := found
    have head : isSpace byte = false := by
      have first := List.head?_dropWhile_not isSpace stream
      simpa [dropped] using first
    refine ⟨⟨?_, ?_⟩, ?_, stream.takeWhile isSpace, ?_, ?_⟩
    · rw [← wordEq]
      simp [head]
    · intro next member
      rw [← wordEq] at member
      simpa using List.mem_takeWhile_imp member
    · intro next member
      have first := List.head?_dropWhile_not (fun next => !isSpace next) (byte :: tail)
      rw [restEq] at first
      rw [Option.mem_def] at member
      rw [member] at first
      simpa using first
    · intro next member
      exact List.mem_takeWhile_imp member
    · rw [← wordEq, ← restEq, List.append_assoc, List.takeWhile_append_dropWhile, ← dropped,
        List.takeWhile_append_dropWhile]

theorem fields_append_cons {separator : Byte → Bool} {byte : Byte}
    (separates : separator byte = true) (left right : Bytes) :
    fields separator (left ++ byte :: right) =
      fields separator left ++ fields separator right := by
  simp only [fields, List.splitOnP_append_cons left right separates, List.filter_append]

theorem fields_singleton {separator : Byte → Bool} {text : Bytes} (nonempty : text ≠ [])
    (free : ∀ byte ∈ text, separator byte = false) : fields separator text = [text] := by
  simp [fields, List.splitOnP_eq_singleton free, nonempty]

theorem mem_splitOnP {separator : Byte → Bool} {text piece : Bytes}
    (listed : piece ∈ text.splitOnP separator) :
    ∀ byte ∈ piece, separator byte = false ∧ byte ∈ text := by
  induction text generalizing piece with
  | nil =>
      rw [List.splitOnP_nil, List.mem_singleton] at listed
      simp [listed]
  | cons first rest ih =>
      rw [List.splitOnP_cons_eq_if_modifyHead] at listed
      split at listed
      · rcases List.mem_cons.mp listed with rfl | later
        · simp
        · intro byte inside
          obtain ⟨other, within⟩ := ih later byte inside
          exact ⟨other, List.mem_cons_of_mem first within⟩
      · rename_i other
        cases pieces : rest.splitOnP separator with
        | nil => exact absurd pieces (List.splitOnP_ne_nil separator rest)
        | cons head tail =>
            rw [pieces, List.modifyHead_cons] at listed
            intro byte inside
            rcases List.mem_cons.mp listed with rfl | later
            · rcases List.mem_cons.mp inside with rfl | after
              · exact ⟨by simpa using other, by simp⟩
              · obtain ⟨free, within⟩ := ih (by rw [pieces]; simp) byte after
                exact ⟨free, List.mem_cons_of_mem first within⟩
            · obtain ⟨free, within⟩ := ih (by rw [pieces]; simp [later]) byte inside
              exact ⟨free, List.mem_cons_of_mem first within⟩

@[simp] theorem fields_nil (separator : Byte → Bool) : fields separator [] = [] := by
  simp [fields]

theorem fields_cons {separator : Byte → Bool} {byte : Byte} (separates : separator byte = true)
    (rest : Bytes) : fields separator (byte :: rest) = fields separator rest := by
  simpa using fields_append_cons separates [] rest

theorem fields_skip {separator : Byte → Bool} {skipped : Bytes}
    (separates : ∀ byte ∈ skipped, separator byte = true) (rest : Bytes) :
    fields separator (skipped ++ rest) = fields separator rest := by
  induction skipped with
  | nil => rfl
  | cons byte tail ih =>
      rw [List.cons_append, fields_cons (separates byte (by simp))]
      exact ih fun next member => separates next (by simp [member])

theorem fields_eq_extract (stream : Bytes) :
    fields isSpace stream =
      match extract stream with
      | none => []
      | some (word, rest) => word :: fields isSpace rest := by
  cases found : extract stream with
  | none =>
      simp only [extract] at found
      split at found
      · rename_i dropped
        have blank := List.dropWhile_eq_nil_iff.mp dropped
        simpa using fields_skip blank []
      · simp at found
  | some pair =>
      obtain ⟨word, rest⟩ := pair
      obtain ⟨isWord, gap, skipped, blank, rfl⟩ := extract_spec found
      rw [List.append_assoc, fields_skip blank]
      cases rest with
      | nil => simp [fields_singleton isWord.1 isWord.2]
      | cons byte tail =>
          rw [atGap_cons] at gap
          rw [fields_append_cons gap, fields_singleton isWord.1 isWord.2]
          simp [fields_cons gap]

/-! Decimal numerals. -/

theorem digitByte_toNat {digit : Nat} (bound : digit < 10) :
    (UInt8.ofNat (Nat.digitChar digit).toNat).toNat = 48 + digit := by
  rw [Nat.toNat_digitChar_of_lt_ten bound]
  simp only [UInt8.toNat_ofNat']
  omega

theorem decimal_eq (number : Nat) :
    decimal number = if number < 10 then [UInt8.ofNat (Nat.digitChar number).toNat]
      else decimal (number / 10) ++ [UInt8.ofNat (Nat.digitChar (number % 10)).toNat] := by
  unfold decimal
  rw [Nat.toDigits_eq_if (by omega)]
  split <;> simp

theorem decimal_ne_nil (number : Nat) : decimal number ≠ [] := by
  simp [decimal]

theorem decimal_isDigit (number : Nat) : ∀ byte ∈ decimal number, isDigit byte = true := by
  intro byte member
  simp only [decimal, List.mem_map] at member
  obtain ⟨char, charMember, rfl⟩ := member
  have digit := Nat.isDigit_of_mem_toDigits (by omega) (by omega) charMember
  simp only [Char.isDigit, Bool.and_eq_true, decide_eq_true_eq, ge_iff_le,
    UInt32.le_iff_toNat_le] at digit
  have lower : (48 : UInt8).toNat = 48 := rfl
  have upper : (57 : UInt8).toNat = 57 := rfl
  have value : char.toNat = char.val.toNat := rfl
  simp only [isDigit, Bool.and_eq_true, decide_eq_true_eq, UInt8.le_iff_toNat_le,
    UInt8.toNat_ofNat', lower, upper, value]
  simp at digit
  omega

theorem digitsValue_append (left right : Bytes) :
    digitsValue (left ++ right) =
      right.foldl (fun total digit => 10 * total + (digit.toNat - 48)) (digitsValue left) := by
  simp [digitsValue]

theorem digitsValue_decimal (number : Nat) : digitsValue (decimal number) = number := by
  induction number using Nat.strongRecOn with
  | ind number ih =>
      rw [decimal_eq]
      split
      · rename_i small
        simp only [digitsValue, List.foldl_cons, List.foldl_nil, digitByte_toNat small]
        omega
      · rename_i large
        have digit : number % 10 < 10 := Nat.mod_lt _ (by omega)
        rw [digitsValue_append, ih (number / 10) (by omega)]
        simp only [List.foldl_cons, List.foldl_nil, digitByte_toNat digit]
        omega

theorem decimal_word (number : Nat) : Word (decimal number) := by
  refine ⟨decimal_ne_nil number, ?_⟩
  intro byte member
  exact isSpace_eq_false_of_isDigit (decimal_isDigit number byte member)

theorem isDigit_ne_sign {byte : Byte} (digit : isDigit byte = true) : byte ≠ 45 ∧ byte ≠ 43 := by
  constructor
  · rintro rfl
    revert digit
    decide
  · rintro rfl
    revert digit
    decide

theorem scanInteger_digits {text : Bytes} (nonempty : text ≠ [])
    (digits : ∀ byte ∈ text, isDigit byte = true) :
    scanInteger text = some (false, digitsValue text, text.length) := by
  cases text with
  | nil => exact absurd rfl nonempty
  | cons byte rest =>
      have head := digits byte (by simp)
      have noSpace := isSpace_eq_false_of_isDigit head
      obtain ⟨notMinus, notPlus⟩ := isDigit_ne_sign head
      have whole : (byte :: rest).takeWhile isDigit = byte :: rest :=
        List.takeWhile_eq_self_iff.mpr digits
      simp [scanInteger, noSpace, notMinus, notPlus, whole]

theorem scanInteger_decimal (number : Nat) :
    scanInteger (decimal number) = some (false, number, (decimal number).length) := by
  rw [scanInteger_digits (decimal_ne_nil number) (decimal_isDigit number), digitsValue_decimal]

theorem scanInteger_blank_decimal (number : Nat) (rest : Bytes)
    (stop : ∀ byte ∈ rest.head?, isDigit byte = false) :
    scanInteger (space :: decimal number ++ rest) =
      some (false, number, (decimal number).length + 1) := by
  have digits := decimal_isDigit number
  have value := digitsValue_decimal number
  have whole : (decimal number ++ rest).takeWhile isDigit = decimal number := by
    rw [List.takeWhile_append_of_pos digits]
    cases rest with
    | nil => simp
    | cons byte tail => simp [stop byte (by simp)]
  cases numeral : decimal number with
  | nil => exact absurd numeral (decimal_ne_nil number)
  | cons byte tail =>
      rw [numeral] at digits value whole
      have head := digits byte (by simp)
      have noSpace := isSpace_eq_false_of_isDigit head
      obtain ⟨notMinus, notPlus⟩ := isDigit_ne_sign head
      rw [List.cons_append] at whole
      simp only [scanInteger, List.cons_append, isSpace_space, List.dropWhile_cons_of_pos, noSpace,
        Bool.false_eq_true, not_false_eq_true, List.dropWhile_cons_of_neg, List.head?_cons,
        Option.some.injEq, notMinus, notPlus, decide_false, Bool.or_self, if_false, whole,
        reduceCtorEq, value, List.length_cons, Nat.add_zero]
      rw [Nat.add_sub_cancel_left, Nat.add_comm 1]

theorem scanSigned_decimal {bits number : Nat} (bound : number < 2 ^ (bits - 1)) :
    scanSigned bits (decimal number) = some ((number : Int), (decimal number).length) := by
  have upper : (number : Int) < 2 ^ (bits - 1) := by exact_mod_cast bound
  have positive : (0 : Int) < 2 ^ (bits - 1) := by positivity
  simp only [scanSigned, scanInteger_decimal, Bool.false_eq_true, if_false]
  rw [if_pos ⟨by omega, upper⟩]

theorem scanSigned_decimal_large {bits number : Nat} (large : 2 ^ (bits - 1) ≤ number) :
    scanSigned bits (decimal number) = none := by
  simp only [scanSigned, scanInteger_decimal, Bool.false_eq_true, if_false]
  rw [if_neg]
  rintro ⟨_, upper⟩
  have bound : number < 2 ^ (bits - 1) := by exact_mod_cast upper
  omega

theorem scanSigned_lt {bits : Nat} {text : Bytes} {value : Int} {position : Nat}
    (scanned : scanSigned bits text = some (value, position)) : value < 2 ^ (bits - 1) := by
  unfold scanSigned at scanned
  split at scanned
  · simp at scanned
  · simp only [Option.ite_none_right_eq_some, Option.some.injEq, Prod.mk.injEq] at scanned
    obtain ⟨⟨_, upper⟩, rfl, _⟩ := scanned
    exact upper

theorem stoi_decimal {number : Nat} (bound : number < 2 ^ 31) :
    stoi (decimal number) = some ((number : Int), (decimal number).length) :=
  scanSigned_decimal bound

theorem stoll_decimal {number : Nat} (bound : number < 2 ^ 63) :
    stoll (decimal number) = some ((number : Int), (decimal number).length) :=
  scanSigned_decimal bound

theorem stoll_decimal_large {number : Nat} (large : 2 ^ 63 ≤ number) :
    stoll (decimal number) = none :=
  scanSigned_decimal_large large

theorem stoull_decimal {number : Nat} (bound : number < 2 ^ 64) :
    stoull (decimal number) = some (number, (decimal number).length) := by
  simp only [stoull, scanInteger_decimal, bound, if_true, Bool.false_eq_true, if_false]

/-! Lines. -/

theorem splitLines_joinLines {lines : List Bytes} (nonempty : lines ≠ [])
    (free : ∀ line ∈ lines, newline ∉ line) : splitLines (joinLines lines) = lines := by
  induction lines with
  | nil => exact absurd rfl nonempty
  | cons line rest ih =>
      have head := free line (by simp)
      cases rest with
      | nil => simp [splitLines, joinLines, List.splitOn_eq_singleton head]
      | cons next others =>
          have tail := ih (by simp) fun other member => free other (by simp [member])
          simp only [joinLines, List.intercalate_cons_cons, splitLines] at tail ⊢
          rw [List.append_assoc, List.singleton_append,
            List.splitOn_append_cons_self_of_not_mem head, tail]

theorem joinLines_count {lines : List Bytes} (nonempty : lines ≠ [])
    (free : ∀ line ∈ lines, newline ∉ line) :
    (joinLines lines).count newline + 1 = lines.length := by
  induction lines with
  | nil => exact absurd rfl nonempty
  | cons line rest ih =>
      have head := List.count_eq_zero_of_not_mem (free line (by simp))
      cases rest with
      | nil => simp [joinLines, head]
      | cons next others =>
          have tail := ih (by simp) fun other member => free other (by simp [member])
          simp only [joinLines, List.intercalate_cons_cons, List.count_append, List.count_singleton_self,
            List.length_cons, head] at tail ⊢
          omega

theorem joinLines_length (lines : List Bytes) :
    (joinLines lines).length = (lines.map List.length).sum + (lines.length - 1) := by
  induction lines with
  | nil => rfl
  | cons line rest ih =>
      cases rest with
      | nil => simp [joinLines]
      | cons next others =>
          simp only [joinLines, List.intercalate_cons_cons, List.length_append, List.length_cons,
            List.length_nil, List.map_cons, List.sum_cons] at ih ⊢
          omega

theorem mem_joinLines {byte : Byte} {line : Bytes} {lines : List Bytes} (listed : line ∈ lines)
    (inside : byte ∈ line) : byte ∈ joinLines lines := by
  induction lines with
  | nil => simp at listed
  | cons first rest ih =>
      cases rest with
      | nil =>
          rw [List.mem_singleton] at listed
          simpa [joinLines, ← listed] using inside
      | cons second others =>
          simp only [joinLines, List.intercalate_cons_cons, List.mem_append] at ih ⊢
          rcases List.mem_cons.mp listed with rfl | later
          · exact Or.inl (Or.inl inside)
          · exact Or.inr (ih later)

theorem joinLines_eq_nil_iff {lines : List Bytes} (filled : ∀ line ∈ lines, line ≠ []) :
    joinLines lines = [] ↔ lines = [] := by
  constructor
  · intro empty
    cases lines with
    | nil => rfl
    | cons line rest =>
        have head := filled line (by simp)
        cases rest with
        | nil => simp [joinLines, head] at empty
        | cons next others =>
            simp [joinLines, List.intercalate_cons_cons] at empty
  · rintro rfl
    rfl

end ByteText
