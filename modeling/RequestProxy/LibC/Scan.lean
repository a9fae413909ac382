import Mathlib.Data.List.DropRight
import Mathlib.Data.Nat.Digits.Lemmas
import RequestProxy.LibC.Memory

/-! `sscanf` for the conversions the proxy uses, and the decimal numbers it
reads and prints. The scanner works on the string up to its NUL. -/

namespace RequestProxy.LibC

def isSpace (byte : UInt8) : Bool := byte = 32 || (9 ≤ byte && byte ≤ 13)

def isDigit (byte : UInt8) : Bool := 48 ≤ byte && byte ≤ 57

/-- The value of a list of decimal digits. -/
def digitsValue (digits : List UInt8) : Nat :=
  digits.foldl (fun value digit => value * 10 + (digit.toNat - 48)) 0

/-- `strtol` keeps the limits of `long` for a value outside them. -/
def saturate (value : Int) : Int := max (-2 ^ 63) (min value (2 ^ 63 - 1))

/-- The assignment of a `long` to an `int`. -/
def toInt (value : Int) : Int32 := Int32.ofInt (saturate value)

/-- A number as `%d` prints it. -/
def decimalText (value : Int) : List UInt8 :=
  let digits :=
    if value = 0 then [48]
    else (Nat.digits 10 value.natAbs).reverse.map fun digit => UInt8.ofNat (48 + digit)
  if value < 0 then 45 :: digits else digits

/-- A directive of a format: white space, another character, `%s`, `%[...]`
with a width, or `%d`. -/
inductive Directive where
  | space
  | literal (char : UInt8)
  | word
  | scanset (width : Nat) (accepts : UInt8 → Bool)
  | decimal

/-- What a conversion stores. -/
inductive Value where
  | text (bytes : List UInt8)
  | number (value : Int32)
  deriving DecidableEq

def skipSpace (input : List UInt8) : List UInt8 := input.dropWhile isSpace

/-- The sign that `%d` may read before the digits. -/
def takeSign (input : List UInt8) : Bool × List UInt8 :=
  match input with
  | 45 :: rest => (true, rest)
  | 43 :: rest => (false, rest)
  | _ => (false, input)

/-- The number `%d` reads, and the input after it; absent without a digit. -/
def scanDecimal (input : List UInt8) : Option (Int32 × List UInt8) :=
  let (negative, input) := takeSign (skipSpace input)
  let digits := input.takeWhile isDigit
  if digits = [] then none
  else
    let value : Int := digitsValue digits
    some (toInt (if negative then -value else value), input.dropWhile isDigit)

/-- `strtol` with base 10: the value and the input behind it, which is all of the
input without a digit. -/
def strtol (input : List UInt8) : Int × List UInt8 :=
  let (negative, rest) := takeSign (skipSpace input)
  let digits := rest.takeWhile isDigit
  if digits = [] then (0, input)
  else
    let value : Int := digitsValue digits
    (saturate (if negative then -value else value), rest.dropWhile isDigit)

/-- The values that `sscanf` assigns, in order, up to the first directive that
fails. Their number is its result, but for the result of an input that ends
before the first conversion, which no caller tells from zero. -/
def scan : List Directive → List UInt8 → List Value
  | [], _ => []
  | .space :: format, input => scan format (skipSpace input)
  | .literal char :: format, input =>
    match input with
    | [] => []
    | byte :: rest => if byte = char then scan format rest else []
  | .word :: format, input =>
    let input := skipSpace input
    let word := input.takeWhile fun byte => !isSpace byte
    if word = [] then []
    else .text word :: scan format (input.dropWhile fun byte => !isSpace byte)
  | .scanset width accepts :: format, input =>
    let matched := (input.take width).takeWhile accepts
    if matched = [] then []
    else .text matched :: scan format (input.drop matched.length)
  | .decimal :: format, input =>
    match scanDecimal input with
    | none => []
    | some (value, rest) => .number value :: scan format rest

def sscanf (pointer : List UInt8) (format : List Directive) : Except Fault (List Value) := do
  return scan format (← readString pointer)

/-- The store of a conversion to its array, when it was reached. -/
def CharArray.assign (array : CharArray size) : Option Value → Except Fault (CharArray size)
  | some (.text text) => array.storeString text
  | some (.number _) | none => .ok array

theorem Holds.sscanf_eq (holds : Holds pointer text) (format : List Directive) :
    sscanf pointer format = .ok (scan format text) := by
  rw [sscanf, holds.readString_eq]
  rfl

/-- The first words of a text, at most `count` of them. -/
def firstWords : Nat → List UInt8 → List (List UInt8)
  | 0, _ => []
  | count + 1, text =>
    let text := skipSpace text
    let word := text.takeWhile fun byte => !isSpace byte
    if word = [] then []
    else word :: firstWords count (text.dropWhile fun byte => !isSpace byte)

theorem firstWords_nil (count : Nat) : firstWords count [] = [] := by
  cases count <;> simp [firstWords, skipSpace]

/-- `"%s %s %s"` reads three words. -/
theorem scan_words (text : List UInt8) :
    scan [.word, .space, .word, .space, .word] text = (firstWords 3 text).map .text := by
  have skip : ∀ text, skipSpace (skipSpace text) = skipSpace text :=
    fun text => List.dropWhile_idempotent _ text
  simp only [scan, firstWords, skip, apply_ite (List.map Value.text), List.map_cons, List.map_nil]

theorem firstWords_length (count : Nat) (text : List UInt8) :
    (firstWords count text).length ≤ count := by
  induction count generalizing text with
  | zero => simp [firstWords]
  | succ count ih =>
    rw [firstWords]
    split
    · simp
    · simpa using ih _

/-- The first byte of a text, if there is one, is not accepted. -/
def Stops (accepts : UInt8 → Bool) (text : List UInt8) : Prop :=
  ∀ byte ∈ text.head?, accepts byte = false

theorem Stops.takeWhile (stops : Stops accepts text) : text.takeWhile accepts = [] := by
  cases text with
  | nil => rfl
  | cons byte text => simp [stops byte (by simp)]

theorem Stops.dropWhile (stops : Stops accepts text) : text.dropWhile accepts = text := by
  cases text with
  | nil => rfl
  | cons byte text => simp [stops byte (by simp)]

theorem stops_dropWhile (accepts : UInt8 → Bool) (text : List UInt8) :
    Stops accepts (text.dropWhile accepts) := by
  intro byte first
  have rejected := List.head?_dropWhile_not accepts text
  rw [Option.mem_def.mp first] at rejected
  exact rejected

theorem Stops.takeWhile_append (stops : Stops accepts rest)
    (accepted : ∀ byte ∈ text, accepts byte = true) : (text ++ rest).takeWhile accepts = text := by
  rw [List.takeWhile_append_of_pos accepted, stops.takeWhile, List.append_nil]

theorem Stops.dropWhile_append (stops : Stops accepts rest)
    (accepted : ∀ byte ∈ text, accepts byte = true) : (text ++ rest).dropWhile accepts = rest := by
  rw [List.dropWhile_append_of_pos accepted, stops.dropWhile]

theorem Stops.take (stops : Stops accepts rest) (count : Nat) : Stops accepts (rest.take count) := by
  intro byte first
  cases rest with
  | nil => simp at first
  | cons head rest =>
    cases count with
    | zero => simp at first
    | succ count => exact stops byte (by simpa using first)

theorem Stops.scanset (stops : Stops accepts rest) (accepted : ∀ byte ∈ text, accepts byte = true)
    (room : text.length ≤ width) : ((text ++ rest).take width).takeWhile accepts = text := by
  rw [List.take_append, List.take_of_length_le room]
  exact (stops.take _).takeWhile_append accepted

theorem skipSpace_append (found : (skipSpace text).takeWhile (fun byte => !isSpace byte) ≠ [])
    (rest : List UInt8) : skipSpace (text ++ rest) = skipSpace text ++ rest := by
  have inside : text.dropWhile isSpace ≠ [] := by
    intro empty
    simp [skipSpace, empty] at found
  simp [skipSpace, List.dropWhile_append, inside]

/-- Extending a text behind the end of its last word keeps its words. -/
theorem firstWords_kept (separate : Stops (fun byte => !isSpace byte) rest) (count : Nat)
    (text : List UInt8) : firstWords count text <+: firstWords count (text ++ rest) := by
  induction count generalizing text with
  | zero => simp [firstWords]
  | succ count ih =>
    by_cases found : (skipSpace text).takeWhile (fun byte => !isSpace byte) = []
    · simp [firstWords, found]
    · have skipped := skipSpace_append found rest
      have word : (skipSpace text ++ rest).takeWhile (fun byte => !isSpace byte) =
          (skipSpace text).takeWhile fun byte => !isSpace byte := by
        rw [List.takeWhile_append, separate.takeWhile]
        split
        · rename_i whole
          rw [List.append_nil]
          exact ((List.takeWhile_prefix _).eq_of_length whole).symm
        · rfl
      have remaining : (skipSpace text ++ rest).dropWhile (fun byte => !isSpace byte) =
          (skipSpace text).dropWhile (fun byte => !isSpace byte) ++ rest := by
        rw [List.dropWhile_append, separate.dropWhile]
        split
        · rename_i empty
          rw [List.isEmpty_iff.mp empty, List.nil_append]
        · rfl
      simp only [firstWords, skipped, word, remaining, found, if_false]
      exact List.cons_prefix_cons.mpr ⟨rfl, ih _⟩

/-- The words of a text are extended when the text is: only the last one can
become longer, and others can follow. -/
theorem firstWords_extend (count : Nat) (text more : List UInt8) (index : Nat) :
    (firstWords count text)[index]?.getD [] <+:
      (firstWords count (text ++ more))[index]?.getD [] := by
  induction count generalizing text index with
  | zero => simp [firstWords]
  | succ count ih =>
    by_cases found : (skipSpace text).takeWhile (fun byte => !isSpace byte) = []
    · simp [firstWords, found]
    · have skipped := skipSpace_append found more
      have whole := List.takeWhile_append_dropWhile (p := fun byte => !isSpace byte)
        (l := skipSpace text)
      cases left : (skipSpace text).dropWhile fun byte => !isSpace byte with
      | nil =>
        have all : ∀ byte ∈ skipSpace text, (!isSpace byte) = true :=
          fun byte member => List.dropWhile_eq_nil_iff.mp left byte member
        have longer : (skipSpace text ++ more).takeWhile (fun byte => !isSpace byte) =
            skipSpace text ++ more.takeWhile fun byte => !isSpace byte :=
          List.takeWhile_append_of_pos all
        rw [left, List.append_nil] at whole
        have nonempty : skipSpace text ≠ [] := whole ▸ found
        have first : firstWords (count + 1) text = [skipSpace text] := by
          simp only [firstWords, whole, left, firstWords_nil, nonempty, if_false]
        have extended : firstWords (count + 1) (text ++ more) =
            (skipSpace text ++ more.takeWhile fun byte => !isSpace byte) ::
              firstWords count ((skipSpace text ++ more).dropWhile fun byte => !isSpace byte) := by
          simp only [firstWords, skipped, longer]
          rw [if_neg (by simp [nonempty])]
        rw [first, extended]
        cases index with
        | zero => exact List.prefix_append _ _
        | succ index => simp
      | cons byte rest =>
        have stops := stops_dropWhile (fun byte => !isSpace byte) (skipSpace text)
        rw [left] at stops whole
        have accepted : ∀ byte ∈ (skipSpace text).takeWhile (fun byte => !isSpace byte),
            (!isSpace byte) = true := fun byte member => by
          simpa using List.mem_takeWhile_imp member
        have ends : Stops (fun byte => !isSpace byte) (byte :: rest ++ more) := by
          simpa [Stops] using stops
        have word := ends.takeWhile_append accepted
        have remaining := ends.dropWhile_append accepted
        rw [← List.append_assoc, whole] at word remaining
        simp only [firstWords, skipped, word, remaining, left, found, if_false]
        cases index with
        | zero => simp
        | succ index => simpa using ih (byte :: rest) index

/-- When a text has all the words that are read, what follows does not matter. -/
theorem firstWords_append (full : (firstWords count text).length = count)
    (separate : Stops (fun byte => !isSpace byte) rest) :
    firstWords count (text ++ rest) = firstWords count text := by
  refine ((firstWords_kept separate count text).eq_of_length_le ?_).symm
  rw [full]
  exact firstWords_length count _

/-- A word followed by white space, or by the end of the text, is the first word. -/
theorem firstWords_cons (nonempty : word ≠ []) (solid : ∀ byte ∈ word, isSpace byte = false)
    (separate : Stops (fun byte => !isSpace byte) rest) :
    firstWords (count + 1) (word ++ rest) = word :: firstWords count rest := by
  have accepted : ∀ byte ∈ word, (!isSpace byte) = true := fun byte member => by
    simp [solid byte member]
  have starts : skipSpace (word ++ rest) = word ++ rest := by
    cases word with
    | nil => exact absurd rfl nonempty
    | cons byte word => simp [skipSpace, solid byte (by simp)]
  rw [firstWords, starts, separate.takeWhile_append accepted, separate.dropWhile_append accepted,
    if_neg nonempty]

theorem firstWords_space (blank : isSpace byte = true) (count : Nat) (text : List UInt8) :
    firstWords count (byte :: text) = firstWords count text := by
  cases count with
  | zero => rfl
  | succ count => simp [firstWords, skipSpace, blank]

/-- Words are disjoint parts of a text with something between them. -/
theorem firstWords_total (count : Nat) (text : List UInt8) :
    ((firstWords count text).map fun word => word.length + 1).sum ≤ text.length + 1 := by
  induction count generalizing text with
  | zero => simp [firstWords]
  | succ count ih =>
    rw [firstWords]
    split
    · simp
    · have whole := congrArg List.length (List.takeWhile_append_dropWhile
        (p := fun byte => !isSpace byte) (l := skipSpace text))
      have shorter : (skipSpace text).length ≤ text.length := (List.dropWhile_sublist _).length_le
      have separate := stops_dropWhile (fun byte => !isSpace byte) (skipSpace text)
      rw [List.length_append] at whole
      simp only [List.map_cons, List.sum_cons]
      cases after : (skipSpace text).dropWhile fun byte => !isSpace byte with
      | nil =>
        simp only [firstWords_nil, List.map_nil, List.sum_nil]
        omega
      | cons byte rest =>
        rw [after] at separate whole
        have blank : isSpace byte = true := by simpa using separate byte (by simp)
        rw [firstWords_space blank]
        have remaining := ih rest
        simp only [List.length_cons] at whole
        omega

theorem firstWords_solid (member : word ∈ firstWords count text) :
    word ≠ [] ∧ (∀ byte ∈ word, isSpace byte = false) ∧ word <:+: text := by
  induction count generalizing text with
  | zero => simp [firstWords] at member
  | succ count ih =>
    rw [firstWords] at member
    split at member
    · simp at member
    · rename_i found
      rcases List.mem_cons.mp member with here | later
      · subst here
        refine ⟨found, fun byte inside => ?_, ?_⟩
        · simpa using List.mem_takeWhile_imp inside
        · exact (List.takeWhile_prefix _).isInfix.trans (List.dropWhile_suffix _).isInfix
      · obtain ⟨nonempty, solid, inside⟩ := ih later
        exact ⟨nonempty, solid, inside.trans
          ((List.dropWhile_suffix _).trans (List.dropWhile_suffix _)).isInfix⟩

theorem isDigit_iff (byte : UInt8) : isDigit byte = true ↔ 48 ≤ byte.toNat ∧ byte.toNat ≤ 57 := by
  simp [isDigit, UInt8.le_iff_toNat_le]

theorem isSpace_iff (byte : UInt8) :
    isSpace byte = true ↔ byte.toNat = 32 ∨ 9 ≤ byte.toNat ∧ byte.toNat ≤ 13 := by
  simp [isSpace, UInt8.le_iff_toNat_le, ← UInt8.toNat_inj]

theorem takeSign_digits (digit : isDigit byte = true) (rest : List UInt8) :
    takeSign (byte :: rest) = (false, byte :: rest) := by
  have bounds := (isDigit_iff byte).mp digit
  unfold takeSign
  split
  · rename_i same
    cases same
    simp at bounds
  · rename_i same
    cases same
    simp at bounds
  · rfl

theorem scanDecimal_digits (nonempty : digits ≠ [])
    (numeral : ∀ byte ∈ digits, isDigit byte = true) (stops : Stops isDigit rest) :
    scanDecimal (digits ++ rest) = some (toInt (digitsValue digits), rest) := by
  cases digits with
  | nil => exact absurd rfl nonempty
  | cons byte digits =>
    have digit := numeral byte (by simp)
    have bounds := (isDigit_iff byte).mp digit
    have solid : isSpace byte = false := by
      rw [Bool.eq_false_iff, ne_eq, isSpace_iff]
      omega
    have unskipped : skipSpace (byte :: digits ++ rest) = byte :: digits ++ rest := by
      simp [skipSpace, solid]
    have read := stops.takeWhile_append numeral
    have left := stops.dropWhile_append numeral
    rw [List.cons_append] at unskipped read left
    simp only [scanDecimal, List.cons_append, unskipped, takeSign_digits digit, read, left]
    simp

theorem toInt_small (small : value < 2 ^ 31) : (toInt (value : Nat)).toInt = value := by
  have kept : saturate (value : Int) = value := by
    simp only [saturate]
    omega
  rw [toInt, kept]
  exact Int32.toInt_ofInt_of_le (by omega) (by omega)

theorem decimalText_length (value : Nat) (small : value < 10 ^ (count + 1)) :
    (decimalText value).length ≤ count + 1 := by
  by_cases zero : value = 0
  · simp [decimalText, zero]
  · have digits := (Nat.digits_length_le_iff (by decide : 1 < 10) (k := count + 1) value).mpr small
    have nonneg : ¬(value : Int) < 0 := by omega
    simpa [decimalText, zero, nonneg] using digits

theorem decimalText_bytes (value : Int) :
    ∀ byte ∈ decimalText value, byte = 45 ∨ isDigit byte = true := by
  have printed : ∀ byte ∈ (if value = 0 then [48]
      else (Nat.digits 10 value.natAbs).reverse.map fun digit => UInt8.ofNat (48 + digit)),
      isDigit byte = true := by
    intro byte member
    split at member
    · rw [List.mem_singleton.mp member]
      decide
    · obtain ⟨digit, listed, rfl⟩ := List.mem_map.mp member
      have small := Nat.digits_lt_base (by decide : 1 < 10) (List.mem_reverse.mp listed)
      rw [isDigit_iff]
      simp
      omega
  intro byte member
  rw [decimalText] at member
  split at member
  · exact (List.mem_cons.mp member).imp id (printed byte)
  · exact .inr (printed byte member)

theorem decimalText_clean (value : Int) : 0 ∉ decimalText value := by
  intro member
  have printed := decimalText_bytes value 0 member
  simp [isDigit] at printed

end RequestProxy.LibC
