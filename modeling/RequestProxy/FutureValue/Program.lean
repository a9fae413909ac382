import RequestProxy.FutureValue.Input

namespace RequestProxy.FutureValue

open Abstract LibC

/-- `main`: it ends with the message of an error, or with what it displays. -/
def main (strtod : List UInt8 → Rat × List UInt8) (argv : List (List UInt8)) :
    Except Fault (Except String Displayed) :=
  match parseInput strtod argv with
  | .error message => return .error message
  | .ok ⟨monthlyInvestment, annualInterestRate, years⟩ => do
    let results := List.replicate maxYears ⟨0, 0⟩
    let state ← calculateFutureValue monthlyInvestment annualInterestRate years results
    let shown ← displayResults monthlyInvestment annualInterestRate years state.results
    return .ok shown

variable {strtod : List UInt8 → Rat × List UInt8} {argv : List (List UInt8)}
variable {arguments : Arguments}

/-- The ranges that `parse_input` has checked. -/
structure Checked (arguments : Arguments) : Prop where
  investment : 1 ≤ arguments.monthlyInvestment ∧ arguments.monthlyInvestment ≤ 1000
  rate : 1 ≤ arguments.annualInterestRate ∧ arguments.annualInterestRate ≤ 15
  years : minYears ≤ arguments.years.toInt ∧ arguments.years.toInt ≤ maxYears

private theorem parseDouble_range {low high value : Rat}
    (parsed : parseDouble strtod low high message text = .ok value) : low ≤ value ∧ value ≤ high := by
  rw [parseDouble] at parsed
  split at parsed
  · split at parsed
    split at parsed
    · cases parsed
    · rename_i inside
      cases parsed
      simp only [not_or, not_lt] at inside
      exact inside.2
  · cases parsed

private theorem parseYears_range {text : List UInt8} (parsed : parseYears text = .ok years) :
    minYears ≤ years.toInt ∧ years.toInt ≤ maxYears := by
  rw [parseYears] at parsed
  split at parsed
  · split at parsed
    simp only at parsed
    split at parsed
    · cases parsed
    · rename_i inside
      cases parsed
      simp only [not_or, not_lt] at inside
      exact inside.2
  · cases parsed

/-- What `parse_input` lets through is in range, also when the number of years was
not. -/
theorem checked (parsed : parseInput strtod argv = .ok arguments) : Checked arguments := by
  unfold parseInput at parsed
  split at parsed
  · rename_i program investment rate text
    cases first : parseInvestment strtod investment with
    | error message => simp [first] at parsed
    | ok monthlyInvestment =>
      cases second : parseInterestRate strtod rate with
      | error message => simp [first, second] at parsed
      | ok annualInterestRate =>
        cases third : parseYears text with
        | error message => simp [first, second, third] at parsed
        | ok years =>
          simp only [first, second, third, ok_bind] at parsed
          cases parsed
          exact ⟨parseDouble_range first, parseDouble_range second, parseYears_range third⟩
  · cases parsed

/-- What is displayed for some arguments: the table of an annuity due, the last
row of which is the value that is announced. -/
structure Shows (arguments : Arguments) (shown : Displayed) : Prop where
  investment : shown.monthlyInvestment = arguments.monthlyInvestment
  rate : shown.annualInterestRate = arguments.annualInterestRate
  years : shown.years = arguments.years
  rows : shown.rows = (List.range arguments.years.toInt.toNat).map fun (year : Nat) =>
    yearRow arguments.monthlyInvestment (arguments.annualInterestRate / 1200) (year + 1)
  futureValue : some shown.futureValue = shown.rows.getLast?.map Row.value
  grows : shown.rows.Pairwise fun earlier later =>
    earlier.value < later.value ∧ earlier.accumInterest < later.accumInterest

private theorem balance_strictMono {deposit rate : Rat} (positive : 0 < deposit)
    (gains : 0 < rate) :
    StrictMono (balance deposit rate) := by
  apply strictMono_nat_of_lt_succ
  intro periods
  have nonneg := balance_nonneg positive gains periods
  have added : 0 < (balance deposit rate periods + deposit) * rate := by positivity
  rw [balance]
  linarith

private theorem display_eq (monthlyInvestment annualInterestRate : Rat) {results : List Row}
    {years : Int32} {count : Nat} (same : years.toInt = count + 1)
    (inside : count < results.length) :
    displayResults monthlyInvestment annualInterestRate years results =
      .ok ⟨monthlyInvestment, annualInterestRate, years, results[count].value,
        results.take (count + 1)⟩ := by
  have last : years.toInt - 1 = count := by omega
  have number : years.toInt.toNat = count + 1 := by omega
  rw [displayResults, last, load_ok inside, number]
  simp only [ok_bind, load_rows (count + 1) inside]
  rfl

private theorem filled_rows {state : State} {before : List Row} {deposit rate : Rat}
    (filled : Filled deposit rate before (12 * (count + 1)) state) :
    state.results.take (count + 1) =
      (List.range (count + 1)).map fun (year : Nat) => yearRow deposit rate (year + 1) := by
  apply List.ext_getElem?
  intro index
  have full : 12 * (count + 1) / 12 = count + 1 := Nat.mul_div_cancel_left _ (by decide)
  have row := filled.rows index
  rw [full] at row
  by_cases early : index < count + 1
  · rw [List.getElem?_take_of_lt early, row, if_pos early]
    simp [early]
  · rw [List.getElem?_take_eq_none (Nat.le_of_not_lt early)]
    simp [early]

private theorem shows (checks : Checked arguments) :
    ∃ state shown, calculateFutureValue arguments.monthlyInvestment arguments.annualInterestRate
        arguments.years (List.replicate maxYears ⟨0, 0⟩) = .ok state ∧
      displayResults arguments.monthlyInvestment arguments.annualInterestRate arguments.years
        state.results = .ok shown ∧ Shows arguments shown := by
  obtain ⟨monthlyInvestment, annualInterestRate, years⟩ := arguments
  obtain ⟨⟨invests, _⟩, ⟨gains, _⟩, low, high⟩ := checks
  simp only [minYears, maxYears] at low high invests gains
  have largest : Int32.maxValue.toInt = 2 ^ 31 - 1 := by decide
  have size : (List.replicate maxYears (⟨0, 0⟩ : Row)).length = 50 := List.length_replicate
  obtain ⟨state, ran, filled⟩ := calculate_filled monthlyInvestment annualInterestRate
    (List.replicate maxYears ⟨0, 0⟩) low (by omega) (by omega)
  obtain ⟨count, same⟩ : ∃ count : Nat, years.toInt = count + 1 :=
    ⟨(years.toInt - 1).toNat, by omega⟩
  have number : years.toInt.toNat = count + 1 := by omega
  rw [number, show annualInterestRate / 12 / 100 = annualInterestRate / 1200 by ring] at filled
  have inside : count < state.results.length := by rw [filled.length]; omega
  have rows := filled_rows filled
  refine ⟨state, _, ran, display_eq monthlyInvestment annualInterestRate same inside, rfl, rfl, rfl,
    ?_, ?_, ?_⟩
  · simp only [number]
    exact rows
  · simp [List.getLast?_eq_getElem?, inside]
  · simp only [rows]
    have positive : 0 < monthlyInvestment := by linarith
    have some : 0 < annualInterestRate / 1200 := by linarith
    refine List.Pairwise.map _ ?_ List.pairwise_lt_range
    intro earlier later ordered
    exact ⟨balance_strictMono positive some (by omega), interest_strictMono positive some (by omega)⟩

/-- Whatever its arguments are, the program ends: with the message of
`parse_input`, or with the table of the years it was given; no access leaves the
table and nothing overflows. -/
theorem program_ends (strtod : List UInt8 → Rat × List UInt8) (argv : List (List UInt8)) :
    (∃ message, parseInput strtod argv = .error message ∧
      main strtod argv = .ok (.error message)) ∨
    ∃ arguments shown, parseInput strtod argv = .ok arguments ∧ Checked arguments ∧
      main strtod argv = .ok (.ok shown) ∧ Shows arguments shown := by
  cases parsed : parseInput strtod argv with
  | error message => exact .inl ⟨message, rfl, by rw [main, parsed]; rfl⟩
  | ok arguments =>
    have checks := checked parsed
    obtain ⟨state, shown, ran, displayed, shows⟩ := shows checks
    refine .inr ⟨arguments, shown, rfl, checks, ?_, shows⟩
    rw [main, parsed]
    simp only [ran, displayed, ok_bind]
    rfl

end RequestProxy.FutureValue
