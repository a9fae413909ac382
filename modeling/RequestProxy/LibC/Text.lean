import RequestProxy.LibC.Memory

namespace RequestProxy.LibC

def strlen (pointer : List UInt8) : Except Fault Nat := do
  return (← readString pointer).length

/-- `strncmp`: zero when the strings agree as far as they are compared. -/
def strncmp : List UInt8 → List UInt8 → Nat → Except Fault Int
  | _, _, 0 => .ok 0
  | a :: first, b :: second, count + 1 =>
    if a ≠ b then .ok ((a.toNat : Int) - b.toNat)
    else if a = 0 then .ok 0
    else strncmp first second count
  | _, _, _ + 1 => .error .overread

/-- `strchr` for a character other than NUL. -/
def strchr : List UInt8 → UInt8 → Except Fault (Option (List UInt8))
  | [], _ => .error .overread
  | byte :: rest, char =>
    if byte = char then .ok (some (byte :: rest))
    else if byte = 0 then .ok none
    else strchr rest char

/-- `strstr` for a needle that is not empty. -/
def strstr : List UInt8 → List UInt8 → Except Fault (Option (List UInt8))
  | [], _ => .error .overread
  | byte :: rest, needle =>
    if needle.isPrefixOf (byte :: rest) then .ok (some (byte :: rest))
    else if byte = 0 then .ok none
    else strstr rest needle

variable {size : Nat}

def strcpy (array : CharArray size) (source : List UInt8) : Except Fault (CharArray size) := do
  array.storeString (← readString source)

/-- `strncpy`: what is left of `count` bytes is filled with NULs. -/
def strncpy (array : CharArray size) (source : List UInt8) (count : Nat) :
    Except Fault (CharArray size) := do
  let text ← readUpTo count source
  array.store 0 (text ++ List.replicate (count - text.length) 0)

def strncat (array : CharArray size) (source : List UInt8) (count : Nat) :
    Except Fault (CharArray size) := do
  let text ← readUpTo count source
  array.store (← strlen array.bytes) (text ++ [0])

/-- `snprintf` of a text that is already formatted. -/
def snprintf (array : CharArray size) (limit : Nat) (text : List UInt8) :
    Except Fault (CharArray size) :=
  if limit = 0 then .ok array else array.storeString (text.take (limit - 1))

variable {pointer text constant separator needle : List UInt8} {char : UInt8}
variable {array : CharArray size}

theorem Holds.strlen_eq (holds : Holds pointer text) : strlen pointer = .ok text.length := by
  rw [strlen, holds.readString_eq]
  rfl

/-- Comparing with the whole of a constant tests for a prefix. -/
theorem Holds.strncmp_zero (holds : Holds pointer text) (clean : 0 ∉ constant) :
    ∃ difference, strncmp pointer (constant ++ [0]) constant.length = .ok difference ∧
      (difference = 0 ↔ constant <+: text) := by
  obtain ⟨pure, rest, rfl⟩ := holds
  induction constant generalizing text with
  | nil => exact ⟨0, by simp [strncmp], by simp⟩
  | cons char constant ih =>
    have nonzero : char ≠ 0 := fun same => clean (by simp [same])
    cases text with
    | nil =>
      refine ⟨((0 : UInt8).toNat : Int) - char.toNat, by simp [strncmp, Ne.symm nonzero], ?_⟩
      have positive : char.toNat ≠ 0 := fun same => nonzero (UInt8.toNat_inj.mp same)
      simp only [List.prefix_nil, reduceCtorEq, iff_false]
      simp
      omega
    | cons byte text =>
      by_cases same : byte = char
      · subst same
        obtain ⟨difference, compared, zero⟩ :=
          ih (List.not_mem_of_not_mem_cons clean) (List.not_mem_of_not_mem_cons pure)
        refine ⟨difference, ?_, by simpa using zero⟩
        simpa [strncmp, nonzero] using compared
      · refine ⟨(byte.toNat : Int) - char.toNat, by simp [strncmp, same], ?_⟩
        have different : byte.toNat ≠ char.toNat := fun equal => same (UInt8.toNat_inj.mp equal)
        refine iff_of_false (by omega) fun found => ?_
        exact same (List.cons_prefix_cons.mp found).1.symm

theorem Holds.strchr_some (holds : Holds pointer text) (member : char ∈ text) :
    ∃ found, strchr pointer char = .ok (some found) ∧
      Holds found (text.dropWhile fun byte => byte ≠ char) := by
  obtain ⟨clean, rest, rfl⟩ := holds
  induction text with
  | nil => simp at member
  | cons byte text ih =>
    by_cases same : byte = char
    · subst same
      exact ⟨byte :: text ++ 0 :: rest, by simp [strchr], by simpa using clean, rest, by simp⟩
    · have nonzero : byte ≠ 0 := fun zero => clean (by simp [zero])
      have later : char ∈ text := by simpa [Ne.symm same] using member
      obtain ⟨found, searched, holds⟩ := ih later (List.not_mem_of_not_mem_cons clean)
      exact ⟨found, by simpa [strchr, same, nonzero] using searched, by simpa [same] using holds⟩

theorem Holds.strchr_none (holds : Holds pointer text) (absent : char ∉ text)
    (nonzero : char ≠ 0) : strchr pointer char = .ok none := by
  obtain ⟨clean, rest, rfl⟩ := holds
  induction text with
  | nil => simp [strchr, Ne.symm nonzero]
  | cons byte text ih =>
    have different : byte ≠ char := fun same => absent (by simp [same])
    have inside : byte ≠ 0 := fun zero => clean (by simp [zero])
    simpa [strchr, different, inside] using
      ih (List.not_mem_of_not_mem_cons absent) (List.not_mem_of_not_mem_cons clean)

/-- The text before and after the first occurrence of a separator. -/
def cut (separator : List UInt8) : List UInt8 → Option (List UInt8 × List UInt8)
  | [] => none
  | byte :: rest =>
    if separator.isPrefixOf (byte :: rest) then some ([], (byte :: rest).drop separator.length)
    else (cut separator rest).map fun parts => (byte :: parts.1, parts.2)

theorem cut_eq (found : cut separator text = some (before, after)) :
    text = before ++ separator ++ after := by
  induction text generalizing before with
  | nil => cases found
  | cons byte rest ih =>
    rw [cut] at found
    split at found
    · rename_i here
      obtain ⟨tail, split⟩ := List.isPrefixOf_iff_prefix.mp here
      cases found
      simp [← split]
    · obtain ⟨⟨first, last⟩, later, same⟩ := Option.map_eq_some_iff.mp found
      cases same
      simp [ih later]

theorem cut_before (found : cut separator text = some (before, after)) :
    cut separator before = none := by
  induction text generalizing before with
  | nil => cases found
  | cons byte rest ih =>
    rw [cut] at found
    split at found
    · cases found
      rfl
    · rename_i elsewhere
      obtain ⟨⟨first, last⟩, later, same⟩ := Option.map_eq_some_iff.mp found
      cases same
      have inside : first <+: rest := by
        rw [cut_eq later, List.append_assoc]
        exact List.prefix_append _ _
      have absent : ¬separator.isPrefixOf (byte :: first) = true := by
        intro here
        refine elsewhere (List.isPrefixOf_iff_prefix.mpr ?_)
        exact (List.isPrefixOf_iff_prefix.mp here).trans (List.cons_prefix_cons.mpr ⟨rfl, inside⟩)
      rw [cut, if_neg absent, ih later]
      rfl

/-- A longer text is cut in the same place. -/
theorem cut_extend (found : cut separator text = some (before, after)) (more : List UInt8) :
    cut separator (text ++ more) = some (before, after ++ more) := by
  induction text generalizing before with
  | nil => cases found
  | cons byte rest ih =>
    rw [cut] at found
    split at found
    · rename_i here
      obtain ⟨tail, split⟩ := List.isPrefixOf_iff_prefix.mp here
      cases found
      have still : separator.isPrefixOf (byte :: (rest ++ more)) = true :=
        List.isPrefixOf_iff_prefix.mpr ⟨tail ++ more, by simp [← List.append_assoc, split]⟩
      have inside : separator.length ≤ (byte :: rest).length := by simp [← split]
      rw [List.cons_append, cut, if_pos still, ← List.cons_append,
        List.drop_append_of_le_length inside]
    · rename_i elsewhere
      obtain ⟨⟨first, last⟩, later, same⟩ := Option.map_eq_some_iff.mp found
      cases same
      have inside : separator.length ≤ (byte :: rest).length := by
        simp [cut_eq later]
        omega
      have absent : ¬separator.isPrefixOf (byte :: (rest ++ more)) = true := by
        intro here
        refine elsewhere (List.isPrefixOf_iff_prefix.mpr ?_)
        exact List.prefix_of_prefix_length_le (List.isPrefixOf_iff_prefix.mp here)
          (List.cons_prefix_cons.mpr ⟨rfl, List.prefix_append _ _⟩) inside
      rw [List.cons_append, cut, if_neg absent, ih later]
      rfl

/-- A text is cut behind a part that lacks the first byte of the separator. -/
theorem cut_append (absent : char ∉ before) :
    cut (char :: separator) (before ++ (char :: separator) ++ after) = some (before, after) := by
  induction before with
  | nil => simp [cut, List.isPrefixOf_iff_prefix]
  | cons byte before ih =>
    have different : byte ≠ char := fun same => absent (by simp [same])
    have later := ih (List.not_mem_of_not_mem_cons absent)
    simp only [List.cons_append, List.append_assoc] at later ⊢
    simp [cut, List.isPrefixOf, Ne.symm different, later]

private theorem isPrefixOf_terminated (text : List UInt8) (clean : 0 ∉ separator)
    (rest : List UInt8) :
    separator.isPrefixOf (text ++ 0 :: rest) = separator.isPrefixOf text := by
  induction separator generalizing text with
  | nil => simp
  | cons char separator ih =>
    have nonzero : char ≠ 0 := fun same => clean (by simp [same])
    cases text with
    | nil => simp [List.isPrefixOf, nonzero]
    | cons byte text =>
      simp [List.isPrefixOf, ih text (List.not_mem_of_not_mem_cons clean)]

/-- `strstr` cuts a string at the first occurrence of the needle. -/
theorem Holds.strstr_eq (holds : Holds pointer text) (clean : 0 ∉ needle) (nonempty : needle ≠ []) :
    match cut needle text with
    | some (_, after) => ∃ found, strstr pointer needle = .ok (some found) ∧
        Holds (found.drop needle.length) after
    | none => strstr pointer needle = .ok none := by
  obtain ⟨pure, rest, rfl⟩ := holds
  induction text with
  | nil =>
    have here : needle.isPrefixOf (0 :: rest) = false := by
      have terminated := isPrefixOf_terminated [] clean rest
      cases needle with
      | nil => exact absurd rfl nonempty
      | cons => simpa using terminated
    simp [cut, strstr, here]
  | cons byte text ih =>
    have nonzero : byte ≠ 0 := fun zero => pure (by simp [zero])
    have terminated : needle.isPrefixOf (byte :: (text ++ 0 :: rest)) =
        needle.isPrefixOf (byte :: text) := by
      simpa using isPrefixOf_terminated (byte :: text) clean rest
    rw [List.cons_append, cut, strstr, terminated]
    by_cases here : needle.isPrefixOf (byte :: text) = true
    · obtain ⟨after, split⟩ := List.isPrefixOf_iff_prefix.mp here
      have cleanAfter : 0 ∉ after := fun member => pure (by rw [← split]; simp [member])
      simp only [here, if_true]
      refine ⟨_, rfl, ?_, rest, ?_⟩
      · simpa [← split] using cleanAfter
      · rw [← List.cons_append, ← split]
        simp
    · have still := ih (List.not_mem_of_not_mem_cons pure)
      simp only [here, if_false, nonzero]
      cases later : cut needle text with
      | none => simpa [later] using still
      | some parts =>
        obtain ⟨before, after⟩ := parts
        simpa [later] using still

theorem Holds.strcpy_eq (holds : Holds pointer text) (array : CharArray size)
    (fits : text.length < size) :
    ∃ copied : CharArray size, strcpy array pointer = .ok copied ∧ Holds copied.bytes text := by
  obtain ⟨stored, eq, kept⟩ := storeString_holds holds.1 fits
  refine ⟨stored, ?_, kept⟩
  rw [strcpy, holds.readString_eq]
  exact eq

theorem Holds.strncpy_eq (holds : Holds pointer text) (array : CharArray size)
    (room : text.length < count) (fits : count ≤ size) :
    ∃ copied : CharArray size, strncpy array pointer count = .ok copied ∧
      Holds copied.bytes text := by
  have short : text.take count = text := List.take_of_length_le (Nat.le_of_lt room)
  have padding : List.replicate (count - text.length) (0 : UInt8) =
      0 :: List.replicate (count - text.length - 1) 0 := by
    rw [← List.replicate_succ]
    congr 1
    omega
  have inside : 0 + (text ++ List.replicate (count - text.length) 0).length ≤ size := by
    simp
    omega
  obtain ⟨stored, eq, contents⟩ := store_ok array inside
  refine ⟨stored, ?_, holds.1,
    List.replicate (count - text.length - 1) 0 ++ array.bytes.drop count, ?_⟩
  · rw [strncpy, holds.readUpTo_eq, short]
    exact eq
  · have whole : 0 + (text ++ List.replicate (count - text.length) (0 : UInt8)).length = count := by
      simp
      omega
    rw [contents, whole, padding]
    simp

theorem snprintf_eq (array : CharArray size) (clean : 0 ∉ text) (positive : 0 < limit)
    (fits : limit ≤ size) :
    ∃ printed : CharArray size, snprintf array limit text = .ok printed ∧
      Holds printed.bytes (text.take (limit - 1)) := by
  rw [snprintf, if_neg (by omega)]
  refine storeString_holds (fun member => clean (List.mem_of_mem_take member)) ?_
  simp only [List.length_take]
  omega

theorem Holds.strncat_eq (holds : Holds array.bytes text) (source : Holds pointer added)
    (room : text.length + (added.take count).length < size) :
    ∃ joined : CharArray size, strncat array pointer count = .ok joined ∧
      Holds joined.bytes (text ++ added.take count) := by
  have inside : text.length + (added.take count ++ [0]).length ≤ size := by
    rw [List.length_append, List.length_singleton]
    omega
  obtain ⟨stored, eq, contents⟩ := store_ok array inside
  obtain ⟨clean, rest, split⟩ := id holds
  refine ⟨stored, ?_, ?_, array.bytes.drop (text.length + (added.take count).length + 1), ?_⟩
  · rw [strncat, source.readUpTo_eq, holds.strlen_eq]
    exact eq
  · have cleanAdded : 0 ∉ added.take count := fun member =>
      source.1 (List.mem_of_mem_take member)
    simp [clean, cleanAdded]
  · have before : array.bytes.take text.length = text := by simp [split]
    rw [contents, before]
    simp [Nat.add_assoc]

end RequestProxy.LibC
