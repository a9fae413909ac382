import Mathlib.Logic.Basic
import Mathlib.Data.List.Basic

/-! Character arrays and the strings in them. A pointer into an array is the
list of the bytes from there to the end of the array, so that a function that
reads past the end can be seen to do so. -/

namespace RequestProxy.LibC

/-- The bytes of an ASCII string constant, without the NUL. -/
def ascii (text : String) : List UInt8 :=
  text.toList.map fun char => UInt8.ofNat char.toNat

/-- An access outside an array. -/
inductive Fault where
  | overflow
  | overread
  deriving DecidableEq

@[simp] theorem ok_bind (value : α) (next : α → Except ε β) :
    (Except.ok value >>= next) = next value := rfl

@[simp] theorem error_bind (fault : ε) (next : α → Except ε β) :
    (Except.error fault >>= next) = .error fault := rfl

/-- An array of `size` characters. -/
structure CharArray (size : Nat) where
  bytes : List UInt8
  length_eq : bytes.length = size

variable {size : Nat}

/-- An array cleared by `memset`. -/
def CharArray.zero (size : Nat) : CharArray size := ⟨List.replicate size 0, by simp⟩

/-- An array that starts with a text and is cleared behind it. -/
def CharArray.ofText (size : Nat) (text : List UInt8) (fits : text.length < size) :
    CharArray size :=
  ⟨text ++ List.replicate (size - text.length) 0, by simp; omega⟩

def CharArray.store (array : CharArray size) (offset : Nat) (bytes : List UInt8) :
    Except Fault (CharArray size) :=
  if fits : offset + bytes.length ≤ size then
    .ok ⟨array.bytes.take offset ++ bytes ++ array.bytes.drop (offset + bytes.length), by
      have length := array.length_eq
      simp only [List.length_append, List.length_take, List.length_drop]
      omega⟩
  else .error .overflow

def readString : List UInt8 → Except Fault (List UInt8)
  | [] => .error .overread
  | byte :: rest => if byte = 0 then .ok [] else (readString rest).map (byte :: ·)

/-- At most `count` characters of the string that starts at a pointer. -/
def readUpTo : Nat → List UInt8 → Except Fault (List UInt8)
  | 0, _ => .ok []
  | _ + 1, [] => .error .overread
  | count + 1, byte :: rest =>
    if byte = 0 then .ok [] else (readUpTo count rest).map (byte :: ·)

/-- A string and its NUL stored at the start of an array. -/
def CharArray.storeString (array : CharArray size) (text : List UInt8) :
    Except Fault (CharArray size) :=
  array.store 0 (text ++ [0])

/-- The string that starts at a pointer is `text`. -/
def Holds (pointer text : List UInt8) : Prop :=
  0 ∉ text ∧ ∃ rest, pointer = text ++ 0 :: rest

variable {pointer text : List UInt8} {array : CharArray size}

theorem Holds.readString_eq (holds : Holds pointer text) : readString pointer = .ok text := by
  obtain ⟨clean, rest, rfl⟩ := holds
  induction text with
  | nil => simp [readString]
  | cons byte text ih =>
    have nonzero : byte ≠ 0 := fun same => clean (by simp [same])
    rw [List.cons_append, readString, if_neg nonzero, ih (fun member => clean (by simp [member]))]
    rfl

theorem Holds.of_readString (read : readString pointer = .ok text) : Holds pointer text := by
  induction pointer generalizing text with
  | nil => cases read
  | cons byte pointer ih =>
    rw [readString] at read
    split at read
    · rename_i zero
      cases read
      exact ⟨by simp, pointer, by simp [zero]⟩
    · rename_i nonzero
      cases tail : readString pointer with
      | error fault => simp [tail, Except.map] at read
      | ok rest =>
        simp only [tail, Except.map, Except.ok.injEq] at read
        subst read
        obtain ⟨clean, after, split⟩ := ih tail
        exact ⟨by simp [clean, Ne.symm nonzero], after, by simp [split]⟩

theorem Holds.unique (first : Holds pointer text) (second : Holds pointer other) :
    text = other :=
  Except.ok.inj (first.readString_eq.symm.trans second.readString_eq)

theorem Holds.readUpTo_eq (holds : Holds pointer text) (count : Nat) :
    readUpTo count pointer = .ok (text.take count) := by
  obtain ⟨clean, rest, rfl⟩ := holds
  induction count generalizing text with
  | zero => simp [readUpTo]
  | succ count ih =>
    cases text with
    | nil => simp [readUpTo]
    | cons byte text =>
      have nonzero : byte ≠ 0 := fun same => clean (by simp [same])
      rw [List.cons_append, readUpTo, if_neg nonzero,
        ih (fun member => clean (by simp [member]))]
      rfl

/-- Moving a pointer forward within its string. -/
theorem Holds.drop (holds : Holds pointer text) (inside : count ≤ text.length) :
    Holds (pointer.drop count) (text.drop count) := by
  obtain ⟨clean, rest, rfl⟩ := holds
  refine ⟨fun member => clean (List.mem_of_mem_drop member), rest, ?_⟩
  rw [List.drop_append_of_le_length inside]

theorem Holds.length_lt (holds : Holds array.bytes text) : text.length < size := by
  obtain ⟨_, rest, split⟩ := holds
  have lengths := congrArg List.length split
  rw [array.length_eq] at lengths
  simp at lengths
  omega

theorem holds_ofText (clean : 0 ∉ text) (fits : text.length < size) :
    Holds (CharArray.ofText size text fits).bytes text := by
  refine ⟨clean, List.replicate (size - text.length - 1) 0, ?_⟩
  have room : size - text.length = size - text.length - 1 + 1 := by omega
  have cleared : List.replicate (size - text.length) (0 : UInt8) =
      0 :: List.replicate (size - text.length - 1) 0 := by
    rw [← List.replicate_succ, ← room]
  simp [CharArray.ofText, cleared]

theorem store_ok (array : CharArray size) (fits : offset + bytes.length ≤ size) :
    ∃ stored : CharArray size, array.store offset bytes = .ok stored ∧
      stored.bytes = array.bytes.take offset ++ bytes ++ array.bytes.drop (offset + bytes.length) :=
  ⟨_, dif_pos fits, rfl⟩

theorem storeString_overflow (long : size ≤ text.length) :
    array.storeString text = .error .overflow := by
  rw [CharArray.storeString, CharArray.store, dif_neg (by simp; omega)]

/-- What `storeString` does with a string, whatever was in the array. -/
theorem storeString_holds (clean : 0 ∉ text) (fits : text.length < size) :
    ∃ stored : CharArray size, array.storeString text = .ok stored ∧ Holds stored.bytes text := by
  have room : 0 + (text ++ [0]).length ≤ size := by simp; omega
  obtain ⟨stored, eq, contents⟩ := store_ok array room
  exact ⟨stored, eq, clean, array.bytes.drop (text.length + 1), by simp [contents]⟩

end RequestProxy.LibC
