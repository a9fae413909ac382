import Mathlib.Data.Rat.Floor
import RequestProxy.Abstract.Annuity
import RequestProxy.LibC.Memory

/-! The table of `future_value.c`. A `double` is read as an exact rational number;
an `int` has 32 bits, and where it overflows nothing is said about what the
program does. -/

namespace RequestProxy.FutureValue

open Abstract
open LibC (ok_bind)

def maxYears : Nat := 50

def minYears : Nat := 1

/-- What the C standard leaves undefined. -/
inductive Fault where
  | signedOverflow
  | outOfBounds
  deriving DecidableEq

def multiply (a b : Int32) : Except Fault Int32 :=
  if Int32.minValue.toInt ≤ a.toInt * b.toInt ∧ a.toInt * b.toInt ≤ Int32.maxValue.toInt then
    .ok (a * b)
  else .error .signedOverflow

/-- One row of `results`: its columns 0 and 1. -/
structure Row where
  accumInterest : Rat
  value : Rat
  deriving DecidableEq

/-- The locals of `calculate_future_value` with the table. `written` records the
rows that are stored to; no step reads it. -/
structure State where
  futureValue : Rat
  results : List Row
  written : List Nat

/-- A store to both columns of a row. -/
def State.store (state : State) (index : Nat) (row : Row) : Except Fault State :=
  if index < state.results.length then
    .ok { state with
      results := state.results.set index row
      written := state.written ++ [index] }
  else .error .outOfBounds

/-- The body of the loop of `calculate_future_value` for the month `i`. -/
def month (monthlyInvestment monthlyInterestRate : Rat) (i : Nat) (state : State) :
    Except Fault State :=
  let futureValue := state.futureValue + monthlyInvestment
  let monthlyInterestAmount := futureValue * monthlyInterestRate
  let futureValue := futureValue + monthlyInterestAmount
  let state := { state with futureValue }
  if (i + 1) % 12 = 0 then
    let year := (i + 1) / 12
    state.store (year - 1) ⟨futureValue - monthlyInvestment * 12 * year, futureValue⟩
  else .ok state

def turns (monthlyInvestment monthlyInterestRate : Rat) (state : State) : Nat → Except Fault State
  | 0 => .ok state
  | i + 1 => do
    let state ← turns monthlyInvestment monthlyInterestRate state i
    month monthlyInvestment monthlyInterestRate i state

def calculateFutureValue (monthlyInvestment annualInterestRate : Rat) (years : Int32)
    (results : List Row) : Except Fault State := do
  let monthlyInterestRate := annualInterestRate / 12 / 100
  let months ← multiply years 12
  turns monthlyInvestment monthlyInterestRate ⟨0, results, []⟩ months.toInt.toNat

def load (results : List Row) (index : Int) : Except Fault Row :=
  if index < 0 then .error .outOfBounds
  else
    match results[index.toNat]? with
    | some row => .ok row
    | none => .error .outOfBounds

/-- What `display_results` prints: its arguments, the value of the last year and
the rows of all years. -/
structure Displayed where
  monthlyInvestment : Rat
  annualInterestRate : Rat
  years : Int32
  futureValue : Rat
  rows : List Row

def displayResults (monthlyInvestment annualInterestRate : Rat) (years : Int32)
    (results : List Row) : Except Fault Displayed := do
  let last ← load results (years.toInt - 1)
  let rows ← (List.range years.toInt.toNat).mapM fun (i : Nat) => load results i
  return ⟨monthlyInvestment, annualInterestRate, years, last.value, rows⟩

def yearRow (monthlyInvestment monthlyInterestRate : Rat) (year : Nat) : Row where
  accumInterest := interest monthlyInvestment monthlyInterestRate (12 * year)
  value := balance monthlyInvestment monthlyInterestRate (12 * year)

/-- After a number of turns the rows of the full years are there, written in
order, and the others are as before. -/
structure Filled (monthlyInvestment monthlyInterestRate : Rat) (before : List Row) (count : Nat)
    (state : State) : Prop where
  futureValue : state.futureValue = balance monthlyInvestment monthlyInterestRate count
  written : state.written = List.range (count / 12)
  length : state.results.length = before.length
  rows : ∀ index, state.results[index]? =
    if index < count / 12 then some (yearRow monthlyInvestment monthlyInterestRate (index + 1))
    else before[index]?

variable {monthlyInvestment monthlyInterestRate : Rat} {before : List Row} {state : State}

private theorem yearRow_eq (monthlyInvestment monthlyInterestRate : Rat) (year : Nat) :
    (⟨balance monthlyInvestment monthlyInterestRate (12 * year) - monthlyInvestment * 12 * year,
      balance monthlyInvestment monthlyInterestRate (12 * year)⟩ : Row) =
      yearRow monthlyInvestment monthlyInterestRate year := by
  have deposits : monthlyInvestment * 12 * year = monthlyInvestment * ((12 * year : Nat) : Rat) := by
    push_cast
    ring
  rw [yearRow, interest, deposits]

private theorem Filled.month (filled : Filled monthlyInvestment monthlyInterestRate before i state)
    (room : (i + 1) / 12 ≤ before.length) :
    ∃ after, FutureValue.month monthlyInvestment monthlyInterestRate i state = .ok after ∧
      Filled monthlyInvestment monthlyInterestRate before (i + 1) after := by
  have grown : state.futureValue + monthlyInvestment +
      (state.futureValue + monthlyInvestment) * monthlyInterestRate =
      balance monthlyInvestment monthlyInterestRate (i + 1) := by
    rw [filled.futureValue]
    rfl
  rw [FutureValue.month]
  simp only [grown]
  by_cases last : (i + 1) % 12 = 0
  · obtain ⟨year, month⟩ : ∃ year, i + 1 = 12 * (year + 1) := ⟨i / 12, by omega⟩
    have full : i / 12 = year := by omega
    have next : 12 * (year + 1) / 12 = year + 1 := by omega
    have inside : year < state.results.length := by
      rw [month, next] at room
      rw [filled.length]
      omega
    have rows := filled.rows
    rw [full] at rows
    simp only [last, if_true]
    rw [month, next, yearRow_eq, Nat.add_sub_cancel, State.store, if_pos inside]
    refine ⟨_, rfl, rfl, ?_, ?_, ?_⟩
    · rw [next, List.range_succ, filled.written, full]
    · rw [List.length_set, filled.length]
    · intro index
      rw [next, List.getElem?_set, if_pos inside, rows]
      by_cases here : year = index
      · subst here
        simp
      · have same : index < year + 1 ↔ index < year := by omega
        simp only [here, if_false, same]
  · have same : (i + 1) / 12 = i / 12 := by omega
    simp only [last, if_false]
    refine ⟨_, rfl, rfl, ?_, filled.length, ?_⟩
    · rw [same]
      exact filled.written
    · rw [same]
      exact filled.rows

/-- The loop, by induction on the months. -/
theorem filled_turns (monthlyInvestment monthlyInterestRate : Rat) (count : Nat)
    (room : count / 12 ≤ before.length) :
    ∃ after, turns monthlyInvestment monthlyInterestRate ⟨0, before, []⟩ count = .ok after ∧
      Filled monthlyInvestment monthlyInterestRate before count after := by
  induction count with
  | zero => exact ⟨_, rfl, rfl, rfl, rfl, fun index => rfl⟩
  | succ count ih =>
    have earlier : count / 12 ≤ (count + 1) / 12 := Nat.div_le_div_right (Nat.le_succ count)
    obtain ⟨state, ran, filled⟩ := ih (earlier.trans room)
    obtain ⟨after, stepped, grown⟩ := filled.month room
    refine ⟨after, ?_, grown⟩
    rw [turns, ran]
    exact stepped

private theorem multiply_ok {a b : Int32} (low : Int32.minValue.toInt ≤ a.toInt * b.toInt)
    (high : a.toInt * b.toInt ≤ Int32.maxValue.toInt) :
    ∃ product, multiply a b = .ok product ∧ product.toInt = a.toInt * b.toInt := by
  refine ⟨a * b, if_pos ⟨low, high⟩, ?_⟩
  have lowest : Int32.minValue.toInt = -2 ^ 31 := by decide
  have highest : Int32.maxValue.toInt = 2 ^ 31 - 1 := by decide
  rw [lowest] at low
  rw [highest] at high
  rw [Int32.toInt_mul]
  exact Int.bmod_eq_of_le (by omega) (by omega)

/-- What `calculate_future_value` leaves behind: the rows of all years, written
once each, in a table that is otherwise as before. -/
theorem calculate_filled (monthlyInvestment annualInterestRate : Rat) (before : List Row)
    {years : Int32} (positive : 1 ≤ years.toInt) (small : 12 * years.toInt ≤ Int32.maxValue.toInt)
    (room : years.toInt ≤ before.length) :
    ∃ after, calculateFutureValue monthlyInvestment annualInterestRate years before = .ok after ∧
      Filled monthlyInvestment (annualInterestRate / 12 / 100) before (12 * years.toInt.toNat)
        after := by
  have twelve : (12 : Int32).toInt = 12 := by decide
  have lowest : Int32.minValue.toInt ≤ 0 := by decide
  obtain ⟨months, multiplied, product⟩ :=
    multiply_ok (a := years) (b := 12) (by rw [twelve]; omega) (by rw [twelve]; omega)
  rw [twelve] at product
  have count : months.toInt.toNat = 12 * years.toInt.toNat := by omega
  obtain ⟨after, ran, filled⟩ :=
    filled_turns monthlyInvestment (annualInterestRate / 12 / 100) (12 * years.toInt.toNat)
      (by omega : 12 * years.toInt.toNat / 12 ≤ before.length)
  refine ⟨after, ?_, filled⟩
  rw [calculateFutureValue, multiplied]
  change turns _ _ _ months.toInt.toNat = _
  rw [count]
  exact ran

theorem load_ok {results : List Row} {index : Nat} (inside : index < results.length) :
    load results index = .ok results[index] := by
  rw [load, if_neg (by omega), Int.toNat_natCast, List.getElem?_eq_getElem inside]

theorem load_rows {results : List Row} (count : Nat) (room : count ≤ results.length) :
    ((List.range count).mapM fun (i : Nat) => load results i) = .ok (results.take count) := by
  induction count with
  | zero => rfl
  | succ count ih =>
    have inside : count < results.length := room
    have whole : results.take (count + 1) = results.take count ++ [results[count]] :=
      (List.take_append_getElem inside).symm
    rw [List.range_succ, List.mapM_append, ih (Nat.le_of_succ_le room), whole, List.mapM_cons,
      load_ok inside]
    rfl

theorem display_ok (monthlyInvestment annualInterestRate : Rat) (results : List Row)
    {years : Int32} (positive : 1 ≤ years.toInt) (room : years.toInt ≤ results.length) :
    ∃ shown, displayResults monthlyInvestment annualInterestRate years results = .ok shown ∧
      shown.rows = results.take years.toInt.toNat := by
  obtain ⟨count, same⟩ : ∃ count : Nat, years.toInt - 1 = count := ⟨(years.toInt - 1).toNat, by omega⟩
  have inside : count < results.length := by omega
  have rows := load_rows years.toInt.toNat (by omega : _ ≤ results.length)
  rw [displayResults, same, load_ok inside]
  simp only [ok_bind, rows]
  exact ⟨_, rfl, rfl⟩

/-- The table that `calculate_future_value` is for. -/
structure Tabulated (monthlyInvestment r : Rat) (years : Nat) (before : List Row) (after : State) :
    Prop where
  formula : ∀ year, 1 ≤ year → year ≤ years → ∃ row, after.results[year - 1]? = some row ∧
    row.value = monthlyInvestment * (1 + r) * ((1 + r) ^ (12 * year) - 1) / r ∧
    row.accumInterest = row.value - 12 * monthlyInvestment * year
  written : after.written = List.range years
  others : ∀ index, years ≤ index → after.results[index]? = before[index]?
  positive : ∀ index < years, ∀ row, after.results[index]? = some row → 0 < row.accumInterest
  increasing : ∀ earlier later, earlier < later → later < years → ∀ row next,
    after.results[earlier]? = some row → after.results[later]? = some next →
    row.accumInterest < next.accumInterest

private theorem Filled.tabulated {r : Rat}
    (filled : Filled monthlyInvestment r before (12 * years) state)
    (invests : 0 < monthlyInvestment) (gains : 0 < r) :
    Tabulated monthlyInvestment r years before state := by
  have full : 12 * years / 12 = years := Nat.mul_div_cancel_left years (by decide)
  have rows := filled.rows
  rw [full] at rows
  have stored : ∀ index < years, ∀ row, state.results[index]? = some row →
      row = yearRow monthlyInvestment r (index + 1) := by
    intro index inside row found
    rw [rows, if_pos inside] at found
    exact (Option.some.inj found).symm
  constructor
  · intro year first last
    refine ⟨yearRow monthlyInvestment r year, ?_, ?_, ?_⟩
    · rw [rows, if_pos (by omega), Nat.sub_add_cancel first]
    · exact balance_closed monthlyInvestment gains.ne' (12 * year)
    · rw [yearRow, interest]
      push_cast
      ring
  · rw [filled.written, full]
  · intro index outside
    rw [rows, if_neg (Nat.not_lt.mpr outside)]
  · intro index inside row found
    rw [stored index inside row found]
    exact interest_pos invests gains (by omega)
  · intro earlier later ordered inside row next found foundNext
    rw [stored earlier (by omega) row found, stored later inside next foundNext]
    exact interest_strictMono invests gains (by omega)

/-- The first number of years whose months are no `int`. -/
theorem months_overflow :
    ¬∀ (monthlyInvestment annualInterestRate : Rat) (years : Int32) (before : List Row),
      0 < monthlyInvestment → 0 < annualInterestRate → 1 ≤ years.toInt →
        years.toInt ≤ before.length →
        ∃ after, calculateFutureValue monthlyInvestment annualInterestRate years before = .ok after ∧
          Tabulated monthlyInvestment (annualInterestRate / 1200) years.toInt.toNat before after := by
  intro tabulates
  have years : (178956971 : Int32).toInt = 178956971 := by decide
  have room : (178956971 : Int32).toInt ≤ (List.replicate 178956971 (⟨0, 0⟩ : Row)).length := by
    rw [List.length_replicate, years]
    decide
  obtain ⟨after, ran, _⟩ := tabulates 100 12 178956971 _ (by norm_num) (by norm_num) (by decide) room
  have overflows : multiply 178956971 12 = .error .signedOverflow := by decide
  rw [calculateFutureValue, overflows] at ran
  cases ran

/-- As long as the months are an `int`, the table is right. -/
theorem future_value_tabulated (invests : 0 < monthlyInvestment) (gains : 0 < annualInterestRate)
    {years : Int32} (positive : 1 ≤ years.toInt)
    (small : 12 * years.toInt ≤ Int32.maxValue.toInt) (room : years.toInt ≤ before.length) :
    ∃ after, calculateFutureValue monthlyInvestment annualInterestRate years before = .ok after ∧
      Tabulated monthlyInvestment (annualInterestRate / 1200) years.toInt.toNat before after := by
  obtain ⟨after, ran, filled⟩ :=
    calculate_filled monthlyInvestment annualInterestRate before positive small room
  have rate : annualInterestRate / 12 / 100 = annualInterestRate / 1200 := by ring
  rw [rate] at filled
  exact ⟨after, ran, filled.tabulated invests (by positivity)⟩

theorem future_value_tabulated_sample :
    ∃ after, calculateFutureValue 100 12 2 [⟨7, 7⟩, ⟨8, 8⟩, ⟨9, 9⟩] = .ok after ∧
      Tabulated 100 (12 / 1200) 2 [⟨7, 7⟩, ⟨8, 8⟩, ⟨9, 9⟩] after :=
  future_value_tabulated (by norm_num) (by norm_num) (by decide) (by decide) (by decide)

end RequestProxy.FutureValue
