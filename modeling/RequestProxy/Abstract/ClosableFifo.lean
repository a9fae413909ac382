import Mathlib.Logic.Basic
import Mathlib.Data.List.Basic

namespace RequestProxy.Abstract

universe u

variable {α : Type u}

structure Fifo (α : Type u) where
  items : List α
  closed : Bool

inductive Op (α : Type u) where
  | enqueue (item : α)
  | dequeue
  | close
  | isclosed
  | size

inductive Result (α : Type u) where
  | accepted
  | refused
  | item (item : α)
  | null
  | closed
  | status (closed : Bool)
  | size (length : Nat)

namespace Fifo

def empty : Fifo α := ⟨[], false⟩

/-- One operation and its result. Taking from an empty open store has no
result: the caller waits. -/
def perform (store : Fifo α) : Op α → Option (Fifo α × Result α)
  | .enqueue item =>
    if store.closed then some (store, .refused)
    else some ({ store with items := store.items ++ [item] }, .accepted)
  | .dequeue =>
    match store.items with
    | item :: rest => some ({ store with items := rest }, .item item)
    | [] => if store.closed then some (store, .null) else none
  | .close => some ({ store with closed := true }, .closed)
  | .isclosed => some (store, .status store.closed)
  | .size => some (store, .size store.items.length)

/-- Operations one after the other, with the result of each. -/
def replay (store : Fifo α) : List (Op α) → Option (Fifo α × List (Result α))
  | [] => some (store, [])
  | op :: rest => do
    let (next, result) ← store.perform op
    let (last, results) ← next.replay rest
    return (last, result :: results)

theorem replay_cons {store last : Fifo α}
    (replayed : store.replay (op :: ops) = some (last, results)) :
    ∃ next result later, store.perform op = some (next, result) ∧
      next.replay ops = some (last, later) ∧ results = result :: later := by
  simp only [replay, Option.bind_eq_bind, Option.bind_eq_some_iff, Prod.exists] at replayed
  obtain ⟨next, result, performed, final, later, replayedRest, same⟩ := replayed
  simp only [Option.pure_def, Option.some.injEq, Prod.mk.injEq] at same
  obtain ⟨rfl, rfl⟩ := same
  exact ⟨next, result, later, performed, replayedRest, rfl⟩

theorem replay_nil {store last : Fifo α} (replayed : store.replay [] = some (last, results)) :
    last = store ∧ results = [] := by
  simp only [replay, Option.some.injEq, Prod.mk.injEq] at replayed
  exact ⟨replayed.1.symm, replayed.2.symm⟩

theorem replay_concat {store middle last : Fifo α}
    (before : store.replay ops = some (middle, results))
    (performed : middle.perform op = some (last, result)) :
    store.replay (ops ++ [op]) = some (last, results ++ [result]) := by
  induction ops generalizing store results with
  | nil =>
    obtain ⟨rfl, rfl⟩ := replay_nil before
    simp [replay, performed]
  | cons first rest ih =>
    obtain ⟨next, head, tail, performedFirst, replayed, rfl⟩ := replay_cons before
    simp [replay, performedFirst, ih replayed]

theorem replay_length {store : Fifo α} (replayed : store.replay ops = some (last, results)) :
    results.length = ops.length := by
  induction ops generalizing store results with
  | nil =>
    rw [(replay_nil replayed).2]
    rfl
  | cons first rest ih =>
    obtain ⟨next, head, tail, _, replayedRest, rfl⟩ := replay_cons replayed
    rw [List.length_cons, List.length_cons, ih replayedRest]

/-- Every prefix of a replay is a replay, which ends where the next result is decided. -/
theorem replay_at {store : Fifo α} (replayed : store.replay ops = some (last, results))
    (found : results[index]? = some result) :
    ∃ op before after earlier, ops[index]? = some op ∧
      store.replay (ops.take index) = some (before, earlier) ∧
      before.perform op = some (after, result) := by
  induction ops generalizing store results index with
  | nil =>
    simp [(replay_nil replayed).2] at found
  | cons first rest ih =>
    obtain ⟨next, head, tail, performed, replayedRest, rfl⟩ := replay_cons replayed
    cases index with
    | zero =>
      simp only [List.getElem?_cons_zero, Option.some.injEq] at found
      subst found
      exact ⟨first, store, next, [], rfl, rfl, performed⟩
    | succ index =>
      rw [List.getElem?_cons_succ] at found
      obtain ⟨op, before, after, earlier, same, prior, decided⟩ := ih replayedRest found
      exact ⟨op, before, after, head :: earlier, same, by simp [replay, performed, prior], decided⟩

/-- The items that operations put into the store, given their results. -/
def taken : List (Op α × Result α) → List α
  | [] => []
  | (.dequeue, .item item) :: rest => item :: taken rest
  | _ :: rest => taken rest

/-- The items accepted by the store, given the results. -/
def accepted : List (Op α × Result α) → List α
  | [] => []
  | (.enqueue item, .accepted) :: rest => item :: accepted rest
  | _ :: rest => accepted rest

/-- Nothing is lost, duplicated or reordered: what went in is what came out
followed by what is still stored. -/
theorem conservation {store : Fifo α} (replayed : store.replay ops = some (last, results)) :
    store.items ++ accepted (ops.zip results) = taken (ops.zip results) ++ last.items := by
  induction ops generalizing store results with
  | nil =>
    rw [(replay_nil replayed).1]
    simp [accepted, taken]
  | cons op rest ih =>
    obtain ⟨next, head, tail, performed, replayedRest, rfl⟩ := replay_cons replayed
    have later := ih replayedRest
    cases op with
    | enqueue item =>
      simp only [perform] at performed
      split at performed <;> (cases performed; simpa [accepted, taken] using later)
    | dequeue =>
      simp only [perform] at performed
      split at performed
      · rename_i item remaining stored
        cases performed
        simpa [accepted, taken, stored] using later
      · split at performed <;> cases performed
        simpa [accepted, taken] using later
    | close | isclosed | size =>
      cases performed
      simpa [accepted, taken] using later

/-- The store is closed exactly when it was or some operation closed it. -/
theorem closed_iff {store : Fifo α} (replayed : store.replay ops = some (last, results)) :
    last.closed = true ↔ store.closed = true ∨ Op.close ∈ ops := by
  induction ops generalizing store results with
  | nil =>
    simp [(replay_nil replayed).1]
  | cons op rest ih =>
    obtain ⟨next, head, tail, performed, replayedRest, rfl⟩ := replay_cons replayed
    rw [ih replayedRest]
    cases op with
    | enqueue item =>
      simp only [perform] at performed
      split at performed <;> (cases performed; simp)
    | dequeue =>
      simp only [perform] at performed
      split at performed
      · cases performed
        simp
      · split at performed <;> cases performed
        simp
    | close | isclosed | size =>
      cases performed
      simp

end Fifo

end RequestProxy.Abstract
