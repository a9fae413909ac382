import RequestProxy.FutureValue.Table
import RequestProxy.LibC.Scan

namespace RequestProxy.FutureValue

open LibC

def isValidNumber (text : List UInt8) : Bool :=
  text ≠ [] && text.all fun char => isDigit char || char = 46 || char = 45

/-- What `parse_input` stores to its arguments when it returns 0. -/
structure Arguments where
  monthlyInvestment : Rat
  annualInterestRate : Rat
  years : Int32

section ParseInput

-- `strtod` may round a numeral as it likes
variable (strtod : List UInt8 → Rat × List UInt8)

/-- The check of an argument that is read by `strtod`. -/
def parseDouble (low high : Rat) (message : String) (text : List UInt8) : Except String Rat :=
  if isValidNumber text then
    let (value, endptr) := strtod text
    if endptr ≠ [] ∨ value < low ∨ value > high then .error message
    else .ok value
  else .error message

def parseInvestment : List UInt8 → Except String Rat :=
  parseDouble strtod 1 1000 "Error: Invalid input for monthly investment.\n"

def parseInterestRate : List UInt8 → Except String Rat :=
  parseDouble strtod 1 15 "Error: Invalid input for annual interest rate.\n"

/-- The check of the number of years. -/
def parseYears (text : List UInt8) : Except String Int32 :=
  if isValidNumber text then
    let (value, endptr) := strtol text
    let years := Int32.ofInt value
    if endptr ≠ [] ∨ years.toInt < minYears ∨ years.toInt > maxYears then
      .error "Error: Invalid input for number of years.\n"
    else .ok years
  else .error "Error: Invalid input for number of years.\n"

/-- `parse_input`: it returns 1 with a message, or 0. -/
def parseInput (argv : List (List UInt8)) : Except String Arguments :=
  match argv with
  | [_, investment, rate, years] => do
    let monthlyInvestment ← parseInvestment strtod investment
    let annualInterestRate ← parseInterestRate strtod rate
    let years ← parseYears years
    return ⟨monthlyInvestment, annualInterestRate, years⟩
  | _ => .error
    "Usage: ./future_value <monthly-investment> <annual-interest-rate> <number-of-years>\n"

end ParseInput

/-- The number that a text is a numeral of, with a minus sign or without. -/
def numeral (text : List UInt8) : Option Int :=
  match text with
  | 45 :: digits =>
    if digits ≠ [] ∧ digits.all isDigit then some (-(digitsValue digits : Int)) else none
  | digits => if digits ≠ [] ∧ digits.all isDigit then some (digitsValue digits) else none

/-- A run of digits that names a number of years in the table. -/
def InRange (text : List UInt8) : Prop :=
  text ≠ [] ∧ text.all isDigit = true ∧ minYears ≤ digitsValue text ∧ digitsValue text ≤ maxYears

/-- A number outside the range that a `long` can hold and an `int` cannot: what
an `int` keeps of it is inside. -/
def WrapsAround (text : List UInt8) : Prop :=
  ∃ value, numeral text = some value ∧ -2 ^ 63 ≤ value ∧ value < 2 ^ 63 ∧
    ¬(minYears ≤ value ∧ value ≤ maxYears) ∧
    minYears ≤ value % 2 ^ 32 ∧ value % 2 ^ 32 ≤ maxYears

private theorem strtol_end_iff {text rest : List UInt8} (nonempty : text ≠ [])
    (sign : takeSign (skipSpace text) = (negative, rest)) (value : Int) :
    strtol text = (value, []) ↔ (rest ≠ [] ∧ rest.all isDigit = true) ∧
      value = saturate (if negative then -(digitsValue rest : Int) else digitsValue rest) := by
  rw [strtol, sign]
  by_cases all : rest.all isDigit = true
  · have digits : rest.takeWhile isDigit = rest :=
      List.takeWhile_eq_self_iff.mpr (List.all_eq_true.mp all)
    have left : rest.dropWhile isDigit = [] :=
      List.dropWhile_eq_nil_iff.mpr (List.all_eq_true.mp all)
    by_cases none : rest = []
    · simp [none, nonempty]
    · simp [digits, left, none, all, eq_comm]
  · have left : rest.dropWhile isDigit ≠ [] := fun whole =>
      all (List.all_eq_true.mpr (List.dropWhile_eq_nil_iff.mp whole))
    by_cases none : rest.takeWhile isDigit = []
    · simp [none, nonempty, all]
    · simp [none, left, all]

private theorem valid_digits {text : List UInt8} (nonempty : text ≠ [])
    (digits : text.all isDigit = true) :
    isValidNumber text = true := by
  rw [isValidNumber, Bool.and_eq_true]
  refine ⟨by simpa using nonempty, List.all_eq_true.mpr fun char member => ?_⟩
  simp [List.all_eq_true.mp digits char member]

private theorem valid_minus (valid : isValidNumber rest = true) : isValidNumber
    (45 :: rest) = true := by
  simp only [isValidNumber, Bool.and_eq_true, List.all_cons] at valid ⊢
  exact ⟨by simp, by simp, valid.2⟩

/-- Only a minus sign is read as a sign, and nothing is skipped. -/
theorem valid_sign (valid : isValidNumber (byte :: rest) = true) (plain : byte ≠ 45) :
    takeSign (skipSpace (byte :: rest)) = (false, byte :: rest) := by
  have char : isDigit byte = true ∨ byte = 46 := by
    simp only [isValidNumber, Bool.and_eq_true, List.all_cons, Bool.or_eq_true,
      decide_eq_true_eq] at valid
    exact valid.2.1.resolve_right plain
  rcases char with digit | point
  · have bounds := (isDigit_iff byte).mp digit
    have solid : isSpace byte = false := by
      rw [Bool.eq_false_iff, ne_eq, isSpace_iff]
      omega
    rw [skipSpace, List.dropWhile_cons_of_neg (by simp [solid]), takeSign_digits digit]
  · subst point
    rfl

private theorem numeral_plain (plain : byte ≠ 45) (rest : List UInt8) :
    numeral (byte :: rest) =
      if (byte :: rest).all isDigit then some (digitsValue (byte :: rest) : Int) else none := by
  unfold numeral
  split
  · rename_i same
    exact absurd (List.cons.inj same).1 plain
  · simp

/-- A valid text is read to its end just when it is a numeral. -/
theorem strtol_numeral (text : List UInt8) (value : Int) :
    (isValidNumber text = true ∧ strtol text = (value, [])) ↔
      ∃ number, numeral text = some number ∧ value = saturate number := by
  cases text with
  | nil => simp [isValidNumber, numeral]
  | cons byte rest =>
    have nonempty : byte :: rest ≠ [] := List.cons_ne_nil _ _
    by_cases minus : byte = 45
    · subst minus
      have sign : takeSign (skipSpace (45 :: rest)) = (true, rest) := rfl
      rw [strtol_end_iff nonempty sign, numeral]
      by_cases digits : rest ≠ [] ∧ rest.all isDigit = true
      · have valid := valid_minus (valid_digits digits.1 digits.2)
        rw [if_pos digits]
        simp [valid, digits]
      · rw [if_neg digits]
        exact iff_of_false (fun both => digits both.2.1) (by simp)
    · rw [numeral_plain minus]
      by_cases digits : (byte :: rest).all isDigit = true
      · have valid := valid_digits nonempty digits
        rw [strtol_end_iff nonempty (valid_sign valid minus), if_pos digits]
        simp [valid, digits]
      · rw [if_neg digits]
        refine iff_of_false (fun both => ?_) (by simp)
        have ends := (strtol_end_iff nonempty (valid_sign both.1 minus) value).mp both.2
        exact digits ends.1.2

private theorem ofInt_saturate (value : Int) :
    (minYears ≤ (Int32.ofInt (saturate value)).toInt ∧
        (Int32.ofInt (saturate value)).toInt ≤ maxYears) ↔
      -2 ^ 63 ≤ value ∧ value < 2 ^ 63 ∧
        minYears ≤ value % 2 ^ 32 ∧ value % 2 ^ 32 ≤ maxYears := by
  have size : Int32.size = 2 ^ 32 := rfl
  rw [Int32.toInt_ofInt, size, saturate, minYears, maxYears, Int.bmod]
  omega

/-- The argument is accepted just when it is a numeral of which an `int` keeps a
number in range. -/
theorem parseYears_iff (text : List UInt8) (years : Int32) :
    parseYears text = .ok years ↔ ∃ number, numeral text = some number ∧
      years = Int32.ofInt (saturate number) ∧ minYears ≤ years.toInt ∧ years.toInt ≤ maxYears := by
  have read := strtol_numeral text
  constructor
  · intro parsed
    rw [parseYears] at parsed
    split at parsed
    · rename_i valid
      cases scanned : strtol text with
      | mk value endptr =>
        rw [scanned] at parsed
        dsimp only at parsed
        split at parsed
        · cases parsed
        · rename_i inside
          cases parsed
          have ends : endptr = [] := by
            by_contra more
            exact inside (.inl more)
          obtain ⟨number, found, same⟩ := (read value).mp ⟨valid, by rw [scanned, ends]⟩
          refine ⟨number, found, congrArg Int32.ofInt same, ?_⟩
          omega
    · cases parsed
  · intro ⟨number, found, kept, low, high⟩
    obtain ⟨valid, ends⟩ := (read (saturate number)).mpr ⟨number, found, rfl⟩
    subst kept
    rw [parseYears, if_pos valid, ends]
    refine if_neg ?_
    simp only [ne_eq, not_true_eq_false, false_or]
    omega

private theorem inRange_iff (text : List UInt8) :
    InRange text ↔ ∃ number, numeral text = some number ∧ minYears ≤ number ∧ number ≤ maxYears := by
  cases text with
  | nil => simp [InRange, numeral]
  | cons byte rest =>
    by_cases minus : byte = 45
    · subst minus
      refine iff_of_false (fun inRange => ?_) ?_
      · have digit := inRange.2.1
        simp [isDigit] at digit
      · rintro ⟨number, found, low, _⟩
        rw [numeral] at found
        split at found
        · cases found
          simp only [minYears] at low
          omega
        · cases found
    · rw [numeral_plain minus, InRange]
      by_cases digits : (byte :: rest).all isDigit = true
      · rw [if_pos digits]
        simp [digits]
      · rw [if_neg digits]
        exact iff_of_false (fun inRange => digits inRange.2.1) (by simp)

private theorem inRange_numeral {text : List UInt8} (inRange : InRange text) :
    numeral text = some (digitsValue text : Int) := by
  obtain ⟨nonempty, digits, _⟩ := inRange
  cases text with
  | nil => exact absurd rfl nonempty
  | cons byte rest =>
    have plain : byte ≠ 45 := by
      rintro rfl
      simp [isDigit] at digits
    rw [numeral_plain plain, if_pos digits]

/-- What the number of years is for: the table of the years is filled and shown,
and no access leaves it. -/
def Tabulates (arguments : Arguments) (years : Nat) : Prop :=
  ∃ state shown,
    calculateFutureValue arguments.monthlyInvestment arguments.annualInterestRate arguments.years
      (List.replicate maxYears ⟨0, 0⟩) = .ok state ∧
    displayResults arguments.monthlyInvestment arguments.annualInterestRate arguments.years
      state.results = .ok shown ∧
    state.written = List.range years ∧ shown.rows = state.results.take years

theorem tabulates (arguments : Arguments) (low : minYears ≤ arguments.years.toInt)
    (high : arguments.years.toInt ≤ maxYears) :
    Tabulates arguments arguments.years.toInt.toNat := by
  simp only [minYears, maxYears] at low high
  have largest : Int32.maxValue.toInt = 2 ^ 31 - 1 := by decide
  have rows : (List.replicate maxYears (⟨0, 0⟩ : Row)).length = 50 := List.length_replicate
  obtain ⟨state, ran, filled⟩ := calculate_filled arguments.monthlyInvestment
    arguments.annualInterestRate (List.replicate maxYears ⟨0, 0⟩) low (by omega) (by omega)
  obtain ⟨shown, displayed, printed⟩ := display_ok arguments.monthlyInvestment
    arguments.annualInterestRate state.results low (by rw [filled.length]; omega)
  refine ⟨state, shown, ran, displayed, ?_, printed⟩
  rw [filled.written, Nat.mul_div_cancel_left _ (by decide)]

/-- The number of years is accepted just when it is in range, and then it is the
one that is kept and shown. -/
structure YearsDecided (strtod : List UInt8 → Rat × List UInt8)
    (program investment rate text : List UInt8) : Prop where
  accepted : (∃ arguments, parseInput strtod [program, investment, rate, text] = .ok arguments) ↔
    InRange text
  kept : ∀ arguments, parseInput strtod [program, investment, rate, text] = .ok arguments →
    arguments.years.toInt = digitsValue text ∧ Tabulates arguments (digitsValue text)

section YearsDecided

variable {strtod : List UInt8 → Rat × List UInt8} {investment rate text : List UInt8}
variable {monthlyInvestment annualInterestRate : Rat}

theorem parseInput_iff (validInvestment : parseInvestment strtod investment = .ok monthlyInvestment)
    (validRate : parseInterestRate strtod rate = .ok annualInterestRate)
    (program text : List UInt8) (arguments : Arguments) :
    parseInput strtod [program, investment, rate, text] = .ok arguments ↔
      ∃ years, parseYears text = .ok years ∧
        arguments = ⟨monthlyInvestment, annualInterestRate, years⟩ := by
  simp only [parseInput, validInvestment, validRate, ok_bind]
  cases parseYears text with
  | error message => simp
  | ok years => simp [pure, Except.pure, eq_comm]

private theorem ofInt_kept {number : Int} (low : minYears ≤ number) (high : number ≤ maxYears) :
    (Int32.ofInt (saturate number)).toInt = number := by
  have size : Int32.size = 2 ^ 32 := rfl
  simp only [minYears, maxYears] at low high
  rw [Int32.toInt_ofInt, size, saturate, Int.bmod]
  omega

private theorem parseYears_inRange (inRange : InRange text) :
    ∃ years, parseYears text = .ok years := by
  have found := inRange_numeral inRange
  obtain ⟨number, same, low, high⟩ := (inRange_iff text).mp inRange
  have kept := ofInt_kept low high
  exact ⟨_, (parseYears_iff text _).mpr ⟨number, same, rfl, kept.symm ▸ low, kept.symm ▸ high⟩⟩

private theorem parseYears_sound (plain : ¬WrapsAround text)
    (parsed : parseYears text = .ok years) :
    InRange text ∧ years.toInt = digitsValue text := by
  obtain ⟨number, found, rfl, low, high⟩ := (parseYears_iff text years).mp parsed
  obtain ⟨above, below, wrapped⟩ := (ofInt_saturate number).mp ⟨low, high⟩
  have inside : minYears ≤ number ∧ number ≤ maxYears := by
    by_contra outside
    exact plain ⟨number, found, above, below, outside, wrapped⟩
  have inRange := (inRange_iff text).mpr ⟨number, found, inside⟩
  have same : number = digitsValue text :=
    Option.some.inj (found.symm.trans (inRange_numeral inRange))
  exact ⟨inRange, (ofInt_kept inside.1 inside.2).trans same⟩

private theorem parseYears_wraps (wraps : WrapsAround text) :
    (∃ years, parseYears text = .ok years) ∧ ¬InRange text := by
  obtain ⟨number, found, above, below, outside, wrapped⟩ := wraps
  have kept := (ofInt_saturate number).mpr ⟨above, below, wrapped⟩
  refine ⟨⟨_, (parseYears_iff text _).mpr ⟨number, found, rfl, kept⟩⟩, fun inRange => ?_⟩
  obtain ⟨other, same, inside⟩ := (inRange_iff text).mp inRange
  cases found.symm.trans same
  exact outside inside

/-- `strtod` on a decimal numeral, without rounding. -/
def exactStrtod (text : List UInt8) : Rat × List UInt8 :=
  let (negative, rest) := takeSign (skipSpace text)
  let whole := rest.takeWhile isDigit
  let (fraction, endptr) :=
    match rest.dropWhile isDigit with
    | 46 :: after => (after.takeWhile isDigit, after.dropWhile isDigit)
    | after => ([], after)
  if whole = [] ∧ fraction = [] then (0, text)
  else
    let value : Rat := digitsValue (whole ++ fraction) / 10 ^ fraction.length
    (if negative then -value else value, endptr)

private theorem investment_hundred : parseInvestment exactStrtod (ascii "100") = .ok 100 := by
  decide +kernel

private theorem rate_twelve : parseInterestRate exactStrtod (ascii "12") = .ok 12 := by
  decide +kernel

theorem wrapped_years_accepted :
    ¬∀ (strtod : List UInt8 → Rat × List UInt8) (program investment rate text : List UInt8)
      (monthlyInvestment annualInterestRate : Rat),
      parseInvestment strtod investment = .ok monthlyInvestment →
        parseInterestRate strtod rate = .ok annualInterestRate →
        YearsDecided strtod program investment rate text := by
  intro decides
  have decided := decides exactStrtod (ascii "future_value") _ _ (ascii "4294967297") _ _
    investment_hundred rate_twelve
  have wraps : WrapsAround (ascii "4294967297") := by
    refine ⟨4294967297, by decide, ?_⟩
    decide
  obtain ⟨⟨years, parsed⟩, outside⟩ := parseYears_wraps wraps
  have accepted := (parseInput_iff investment_hundred rate_twelve (ascii "future_value") _ _).mpr
    ⟨years, parsed, rfl⟩
  exact outside (decided.accepted.mp ⟨_, accepted⟩)

/-- The range is checked as it should just when the number does not wrap around. -/
theorem years_decided_iff
    (validInvestment : parseInvestment strtod investment = .ok monthlyInvestment)
    (validRate : parseInterestRate strtod rate = .ok annualInterestRate)
    (program : List UInt8) :
    YearsDecided strtod program investment rate text ↔ ¬WrapsAround text := by
  have parses := parseInput_iff validInvestment validRate program text
  constructor
  · intro decided wraps
    obtain ⟨⟨years, parsed⟩, outside⟩ := parseYears_wraps wraps
    exact outside (decided.accepted.mp ⟨_, (parses _).mpr ⟨years, parsed, rfl⟩⟩)
  · intro plain
    constructor
    · constructor
      · intro ⟨arguments, parsed⟩
        obtain ⟨years, accepted, _⟩ := (parses arguments).mp parsed
        exact (parseYears_sound plain accepted).1
      · intro inRange
        obtain ⟨years, accepted⟩ := parseYears_inRange inRange
        exact ⟨_, (parses _).mpr ⟨years, accepted, rfl⟩⟩
    · intro arguments parsed
      obtain ⟨years, accepted, rfl⟩ := (parses arguments).mp parsed
      obtain ⟨inRange, kept⟩ := parseYears_sound plain accepted
      have low : minYears ≤ years.toInt := by
        rw [kept]
        exact Int.ofNat_le.mpr inRange.2.2.1
      have high : years.toInt ≤ maxYears := by
        rw [kept]
        exact Int.ofNat_le.mpr inRange.2.2.2
      have table := tabulates ⟨monthlyInvestment, annualInterestRate, years⟩ low high
      have count : years.toInt.toNat = digitsValue text := by omega
      exact ⟨kept, count ▸ table⟩

theorem years_decided_iff_sample :
    YearsDecided exactStrtod (ascii "future_value") (ascii "100") (ascii "12") (ascii "30") ↔
      ¬WrapsAround (ascii "30") :=
  years_decided_iff investment_hundred rate_twelve (ascii "future_value")

end YearsDecided

end RequestProxy.FutureValue
