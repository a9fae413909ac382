import Mathlib.Logic.Basic
import Mathlib.Data.List.Basic
import Mathlib.Data.List.Nodup

/-! Null-terminated chains of cells. A link table gives each live address the
pointer stored in its cell; the inner `none` is the null pointer and the outer
one an address that is not live. -/

namespace RequestProxy.Memory

universe u

variable {Addr : Type u}

/-- Following the links from `head` visits exactly the addresses of `path`
and stops at the null pointer. -/
inductive Chain (links : Addr → Option (Option Addr)) : Option Addr → List Addr → Prop where
  | null : Chain links none []
  | cell (live : links address = some next) (rest : Chain links next path) :
      Chain links (some address) (address :: path)

variable {links updated : Addr → Option (Option Addr)} {head : Option Addr} {path : List Addr}

theorem Chain.unique (first : Chain links head path) (second : Chain links head other) :
    path = other := by
  induction first generalizing other with
  | null =>
    cases second with
    | null => rfl
  | cell live rest ih =>
    cases second with
    | cell again tail =>
      have same := Option.some.inj (live.symm.trans again)
      subst same
      rw [ih tail]

theorem Chain.head_eq (chain : Chain links head path) : head = path.head? := by
  cases chain with
  | null => rfl
  | cell _ _ => rfl

theorem Chain.uncons (chain : Chain links head (address :: path)) :
    ∃ next, links address = some next ∧ Chain links next path := by
  cases chain with
  | cell live rest => exact ⟨_, live, rest⟩

theorem Chain.live (chain : Chain links head path) (member : address ∈ path) :
    ∃ next, links address = some next := by
  induction chain with
  | null => simp at member
  | cell live rest ih =>
    rcases List.mem_cons.mp member with same | later
    · subst same
      exact ⟨_, live⟩
    · exact ih later

/-- Each cell of a chain starts a chain of its own, over the rest of the path. -/
theorem Chain.suffix (chain : Chain links head path) (member : address ∈ path) :
    ∃ earlier later, path = earlier ++ address :: later ∧
      Chain links (some address) (address :: later) := by
  induction chain with
  | null => simp at member
  | @cell first next path live rest ih =>
    rcases List.mem_cons.mp member with same | later
    · subst same
      exact ⟨[], path, rfl, .cell live rest⟩
    · obtain ⟨earlier, remaining, split, tail⟩ := ih later
      exact ⟨first :: earlier, remaining, by rw [split]; rfl, tail⟩

/-- A chain that reaches the null pointer has no cycle: a repeated address
would start two chains of different lengths. -/
theorem Chain.nodup (chain : Chain links head path) : path.Nodup := by
  induction chain with
  | null => exact List.nodup_nil
  | @cell address next path live rest ih =>
    refine List.nodup_cons.mpr ⟨?_, ih⟩
    intro repeated
    obtain ⟨earlier, later, split, tail⟩ := rest.suffix repeated
    have same := tail.unique (.cell live rest)
    have lengths := congrArg List.length (List.cons.inj same).2
    rw [split] at lengths
    simp at lengths
    omega

theorem Chain.frame (chain : Chain links head path)
    (unchanged : ∀ address ∈ path, updated address = links address) :
    Chain updated head path := by
  induction chain with
  | null => exact .null
  | @cell address next path live rest ih =>
    refine .cell ((unchanged address (by simp)).trans live) (ih ?_)
    exact fun other member => unchanged other (List.mem_cons_of_mem address member)

theorem Chain.last_next (chain : Chain links head path) (ends : path.getLast? = some tail) :
    links tail = some none := by
  induction chain with
  | null => simp at ends
  | cell live rest ih =>
    cases rest with
    | null =>
      simp only [List.getLast?_singleton, Option.some.injEq] at ends
      exact ends ▸ live
    | cell following remaining =>
      exact ih (by simpa [List.getLast?_cons_cons] using ends)

/-- Linking a new last cell behind the old one lengthens the chain by it. -/
theorem Chain.push (chain : Chain links head path) (ends : path.getLast? = some tail)
    (linked : updated tail = some (some address)) (terminated : updated address = some none)
    (unchanged : ∀ other ∈ path, other ≠ tail → updated other = links other) :
    Chain updated head (path ++ [address]) := by
  induction chain with
  | null => simp at ends
  | @cell first next path live rest ih =>
    cases rest with
    | null =>
      simp only [List.getLast?_singleton, Option.some.injEq] at ends
      subst ends
      exact .cell linked (.cell terminated .null)
    | @cell second after path following remaining =>
      have tailEnds : (second :: path).getLast? = some tail := by
        simpa [List.getLast?_cons_cons] using ends
      have different : first ≠ tail := by
        intro same
        have whole := (Chain.cell live (.cell following remaining)).nodup
        exact (List.nodup_cons.mp whole).1 (same ▸ List.mem_of_getLast? tailEnds)
      refine .cell ((unchanged first (by simp) different).trans live) (ih tailEnds ?_)
      exact fun other member => unchanged other (List.mem_cons_of_mem first member)

end RequestProxy.Memory
