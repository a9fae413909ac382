import RequestProxy.LibC.Text
import RequestProxy.LibC.Scan

namespace RequestProxy.LibC

/-- No store of a computation leaves its array. -/
def StoresInside (result : Except Fault α) : Prop := result ≠ .error .overflow

theorem storesInside_ok (value : α) : StoresInside (.ok value) := by simp [StoresInside]

theorem storesInside_overread : StoresInside (.error .overread : Except Fault α) := by
  simp [StoresInside]

/-- A computation goes on only after the one before it. -/
theorem StoresInside.bind {first : Except Fault α} {next : α → Except Fault β}
    (inside : StoresInside first) (later : ∀ value, first = .ok value → StoresInside (next value)) :
    StoresInside (first >>= next) := by
  cases first with
  | ok value => exact later value rfl
  | error fault =>
    intro overflow
    apply inside
    rw [error_bind] at overflow
    cases overflow
    rfl

theorem StoresInside.map {first : Except Fault α} (inside : StoresInside first) (next : α → β) :
    StoresInside (first.map next) := by
  cases first with
  | ok value => exact storesInside_ok _
  | error fault =>
    intro overflow
    apply inside
    cases overflow
    rfl

variable {size : Nat}

theorem readString_inside (pointer : List UInt8) : StoresInside (readString pointer) := by
  induction pointer with
  | nil => exact storesInside_overread
  | cons byte rest ih =>
    rw [readString]
    split
    · exact storesInside_ok _
    · exact ih.map _

theorem readUpTo_inside (count : Nat) (pointer : List UInt8) :
    StoresInside (readUpTo count pointer) := by
  induction count generalizing pointer with
  | zero => exact storesInside_ok _
  | succ count ih =>
    cases pointer with
    | nil => exact storesInside_overread
    | cons byte rest =>
      rw [readUpTo]
      split
      · exact storesInside_ok _
      · exact (ih rest).map _

theorem readUpTo_length (read : readUpTo count pointer = .ok text) : text.length ≤ count := by
  induction count generalizing pointer text with
  | zero =>
    cases read
    exact Nat.le_refl 0
  | succ count ih =>
    cases pointer with
    | nil => cases read
    | cons byte rest =>
      rw [readUpTo] at read
      split at read
      · cases read
        exact Nat.zero_le _
      · cases tail : readUpTo count rest with
        | error fault => simp [tail, Except.map] at read
        | ok more =>
          simp only [tail, Except.map, Except.ok.injEq] at read
          subst read
          exact Nat.succ_le_succ (ih tail)

theorem strlen_inside (pointer : List UInt8) : StoresInside (strlen pointer) :=
  (readString_inside pointer).bind fun _ _ => storesInside_ok _

theorem strlen_lt {array : CharArray size} (measured : strlen array.bytes = .ok length) :
    length < size := by
  rw [strlen] at measured
  cases read : readString array.bytes with
  | error fault => simp [read] at measured
  | ok text =>
    rw [read] at measured
    cases measured
    exact (Holds.of_readString read).length_lt

theorem strncmp_inside (first second : List UInt8) (count : Nat) :
    StoresInside (strncmp first second count) := by
  induction count generalizing first second with
  | zero => cases first <;> cases second <;> exact storesInside_ok _
  | succ count ih =>
    cases first with
    | nil => exact storesInside_overread
    | cons a first =>
      cases second with
      | nil => exact storesInside_overread
      | cons b second =>
        rw [strncmp]
        split
        · exact storesInside_ok _
        · split
          · exact storesInside_ok _
          · exact ih first second

theorem strchr_inside (pointer : List UInt8) (char : UInt8) :
    StoresInside (strchr pointer char) := by
  induction pointer with
  | nil => exact storesInside_overread
  | cons byte rest ih =>
    rw [strchr]
    split
    · exact storesInside_ok _
    · split
      · exact storesInside_ok _
      · exact ih

theorem strstr_inside (pointer needle : List UInt8) : StoresInside (strstr pointer needle) := by
  induction pointer with
  | nil => exact storesInside_overread
  | cons byte rest ih =>
    rw [strstr]
    split
    · exact storesInside_ok _
    · split
      · exact storesInside_ok _
      · exact ih

theorem store_inside (array : CharArray size) (fits : offset + bytes.length ≤ size) :
    StoresInside (array.store offset bytes) := by
  obtain ⟨stored, ran, _⟩ := store_ok array fits
  rw [ran]
  exact storesInside_ok stored

theorem storeString_inside (array : CharArray size) (fits : text.length < size) :
    StoresInside (array.storeString text) := by
  apply store_inside
  rw [List.length_append, List.length_singleton]
  omega

/-- A bounded copy fills its bound and no more. -/
theorem strncpy_inside (array : CharArray size) (source : List UInt8) (fits : count ≤ size) :
    StoresInside (strncpy array source count) := by
  refine (readUpTo_inside count source).bind fun text read => ?_
  have short := readUpTo_length read
  apply store_inside
  rw [List.length_append, List.length_replicate]
  omega

theorem snprintf_inside (array : CharArray size) (text : List UInt8) (fits : limit ≤ size) :
    StoresInside (snprintf array limit text) := by
  rw [snprintf]
  split
  · exact storesInside_ok array
  · apply storeString_inside
    rw [List.length_take]
    omega

/-- What is appended fits behind the string when the bound leaves room for the
NUL. -/
theorem strncat_inside (array : CharArray size) (source : List UInt8)
    (room : ∀ length, strlen array.bytes = .ok length → length + count < size) :
    StoresInside (strncat array source count) := by
  refine (readUpTo_inside count source).bind fun text read => ?_
  refine (strlen_inside array.bytes).bind fun length measured => ?_
  have short := readUpTo_length read
  have bound := room length measured
  apply store_inside
  rw [List.length_append, List.length_singleton]
  omega

end RequestProxy.LibC
