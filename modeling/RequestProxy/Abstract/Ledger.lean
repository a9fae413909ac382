import Mathlib.Algebra.Order.Group.Multiset
import Mathlib.Data.Finset.Basic

/-! Resources that come and go. A ledger has the resources that are live and
records the calls that acquired and released them; it is conserved as long as
nothing is acquired while it is live and nothing released that is not. -/

namespace RequestProxy.Abstract

universe u v

variable {ρ : Type u}

structure Ledger (ρ : Type u) where
  live : Finset ρ
  acquired : List ρ
  released : List ρ

/-- One call that acquires or releases a resource. -/
inductive Entry (ρ : Type u) where
  | acquire (resource : ρ)
  | release (resource : ρ)
  deriving DecidableEq

def Entry.resource : Entry ρ → ρ
  | .acquire resource => resource
  | .release resource => resource

/-- The same call on a resource under another name. -/
def Entry.rename {σ : Type v} (name : ρ → σ) : Entry ρ → Entry σ
  | .acquire resource => .acquire (name resource)
  | .release resource => .release (name resource)

namespace Ledger

/-- A ledger in which nothing is recorded yet. -/
def start (before : Finset ρ) : Ledger ρ := ⟨before, [], []⟩

/-- What was live before and what was acquired is what was released and what is
live now. -/
def Conserved (before : Finset ρ) (ledger : Ledger ρ) : Prop :=
  before.val + (ledger.acquired : Multiset ρ) = ledger.released + ledger.live.val

variable {before : Finset ρ} {ledger : Ledger ρ} {resource : ρ} {entries : List (Entry ρ)}

theorem conserved_start (before : Finset ρ) : Conserved before (start before) := by
  simp [Conserved, start]

/-- The resources that a list of calls acquires. -/
def acquires : List (Entry ρ) → List ρ
  | [] => []
  | .acquire resource :: entries => resource :: acquires entries
  | .release _ :: entries => acquires entries

/-- The resources that a list of calls releases. -/
def releases : List (Entry ρ) → List ρ
  | [] => []
  | .acquire _ :: entries => releases entries
  | .release resource :: entries => resource :: releases entries

theorem acquires_rename {σ : Type v} (name : ρ → σ) (entries : List (Entry ρ)) :
    acquires (entries.map (Entry.rename name)) = (acquires entries).map name := by
  induction entries with
  | nil => rfl
  | cons entry entries ih => cases entry <;> simp [acquires, Entry.rename, ih]

theorem releases_rename {σ : Type v} (name : ρ → σ) (entries : List (Entry ρ)) :
    releases (entries.map (Entry.rename name)) = (releases entries).map name := by
  induction entries with
  | nil => rfl
  | cons entry entries ih => cases entry <;> simp [releases, Entry.rename, ih]

variable [DecidableEq ρ]

def acquire (ledger : Ledger ρ) (resource : ρ) : Ledger ρ :=
  { ledger with
    live := insert resource ledger.live
    acquired := ledger.acquired ++ [resource] }

def release (ledger : Ledger ρ) (resource : ρ) : Ledger ρ :=
  { ledger with
    live := ledger.live.erase resource
    released := ledger.released ++ [resource] }

def record (ledger : Ledger ρ) : List (Entry ρ) → Ledger ρ
  | [] => ledger
  | .acquire resource :: entries => (ledger.acquire resource).record entries
  | .release resource :: entries => (ledger.release resource).record entries

theorem Conserved.acquire (conserved : Conserved before ledger) (absent : resource ∉ ledger.live) :
    Conserved before (ledger.acquire resource) := by
  have live : (insert resource ledger.live).val = ledger.live.val + {resource} := by
    rw [Finset.insert_val_of_notMem absent, ← Multiset.singleton_add, add_comm]
  calc before.val + (ledger.acquired + {resource})
      = before.val + ledger.acquired + {resource} := (add_assoc _ _ _).symm
    _ = ledger.released + ledger.live.val + {resource} := by rw [conserved]
    _ = ledger.released + (insert resource ledger.live).val := by rw [live, add_assoc]

theorem Conserved.release (conserved : Conserved before ledger) (held : resource ∈ ledger.live) :
    Conserved before (ledger.release resource) := by
  have live : {resource} + (ledger.live.erase resource).val = ledger.live.val :=
    Multiset.cons_erase held
  calc before.val + (ledger.acquired : Multiset ρ)
      = ledger.released + ledger.live.val := conserved
    _ = ledger.released + {resource} + (ledger.live.erase resource).val := by
      rw [← live, add_assoc]

theorem record_acquired (ledger : Ledger ρ) (entries : List (Entry ρ)) :
    (ledger.record entries).acquired = ledger.acquired ++ acquires entries := by
  induction entries generalizing ledger with
  | nil => simp [record, acquires]
  | cons entry entries ih => cases entry <;> simp [record, acquires, ih, acquire, release]

theorem record_released (ledger : Ledger ρ) (entries : List (Entry ρ)) :
    (ledger.record entries).released = ledger.released ++ releases entries := by
  induction entries generalizing ledger with
  | nil => simp [record, releases]
  | cons entry entries ih => cases entry <;> simp [record, releases, ih, acquire, release]

/-- Calls on different resources, each possible before the first of them. -/
structure Possible (ledger : Ledger ρ) (entries : List (Entry ρ)) : Prop where
  distinct : (entries.map Entry.resource).Nodup
  absent : ∀ resource, .acquire resource ∈ entries → resource ∉ ledger.live
  held : ∀ resource, .release resource ∈ entries → resource ∈ ledger.live

theorem Conserved.record (conserved : Conserved before ledger) (possible : Possible ledger entries) :
    Conserved before (ledger.record entries) := by
  induction entries generalizing ledger with
  | nil => exact conserved
  | cons entry entries ih =>
    obtain ⟨unused, distinct⟩ := List.nodup_cons.mp possible.distinct
    have other : ∀ later ∈ entries, later.resource ≠ entry.resource := fun later member same =>
      unused (List.mem_map.mpr ⟨later, member, same⟩)
    cases entry with
    | acquire resource =>
      apply ih (conserved.acquire (possible.absent resource (by simp)))
      refine ⟨distinct, fun later member live => ?_, fun later member => ?_⟩
      · rcases Finset.mem_insert.mp live with same | live
        · exact other _ member same
        · exact possible.absent later (by simp [member]) live
      · exact Finset.mem_insert_of_mem (possible.held later (by simp [member]))
    | release resource =>
      apply ih (conserved.release (possible.held resource (by simp)))
      refine ⟨distinct, fun later member live => ?_, fun later member => ?_⟩
      · exact possible.absent later (by simp [member]) (Finset.mem_of_mem_erase live)
      · exact Finset.mem_erase.mpr ⟨other _ member, possible.held later (by simp [member])⟩

theorem Conserved.count_eq (conserved : Conserved before ledger) (resource : ρ) :
    before.val.count resource + ledger.acquired.count resource =
      ledger.released.count resource + ledger.live.val.count resource := by
  simpa using congrArg (Multiset.count resource) conserved

/-- A resource is live just when it was acquired more often than released. -/
theorem Conserved.mem_live_iff (conserved : Conserved ∅ ledger) (resource : ρ) :
    resource ∈ ledger.live ↔
      ledger.released.count resource < ledger.acquired.count resource := by
  have counts := conserved.count_eq resource
  simp only [Finset.empty_val, Multiset.count_zero, zero_add] at counts
  rw [counts, ← Finset.mem_val, ← Multiset.count_pos]
  omega

/-- One resource that was live before has been released as well. -/
theorem Conserved.live_erase_iff (conserved : Conserved before ledger) (held : resource ∈ before) :
    ledger.live = before.erase resource ↔
      ledger.released.Perm (resource :: ledger.acquired) := by
  have whole : before.val = resource ::ₘ (before.erase resource).val :=
    (Multiset.cons_erase held).symm
  have added : ((resource :: ledger.acquired : List ρ) : Multiset ρ) =
      resource ::ₘ (ledger.acquired : Multiset ρ) := rfl
  rw [← Multiset.coe_eq_coe, ← Finset.val_inj, added]
  rw [Conserved, whole, Multiset.cons_add, add_comm, ← Multiset.cons_add] at conserved
  constructor
  · intro same
    rw [same] at conserved
    exact (add_right_cancel conserved).symm
  · intro same
    rw [same] at conserved
    exact (add_left_cancel conserved).symm

end Ledger

end RequestProxy.Abstract
