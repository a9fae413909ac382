import Mathlib.Data.List.Basic
import RequestProxy.Abstract.ClosableFifo

namespace RequestProxy.Abstract.Fifo

universe u

variable {α : Type u} {store last : Fifo α} {ops : List (Op α)} {results : List (Result α)}
variable {early late place : Nat} {first second : α}

/-- A replay may be stopped at any place and taken up again there. -/
theorem replay_split (replayed : store.replay ops = some (last, results)) (index : Nat) :
    ∃ middle, store.replay (ops.take index) = some (middle, results.take index) ∧
      middle.replay (ops.drop index) = some (last, results.drop index) := by
  induction index generalizing store ops results with
  | zero => exact ⟨store, rfl, replayed⟩
  | succ index ih =>
    cases ops with
    | nil =>
      obtain ⟨rfl, rfl⟩ := replay_nil replayed
      exact ⟨_, rfl, rfl⟩
    | cons op rest =>
      obtain ⟨next, result, later, performed, replayedRest, rfl⟩ := replay_cons replayed
      obtain ⟨middle, before, after⟩ := ih replayedRest
      exact ⟨middle, by simp [replay, performed, before], after⟩

theorem replay_performed (replayed : store.replay ops = some (last, results))
    (at_op : ops[index]? = some op) (at_result : results[index]? = some result) :
    ∃ before after, store.replay (ops.take index) = some (before, results.take index) ∧
      before.perform op = some (after, result) ∧
      after.replay (ops.drop (index + 1)) = some (last, results.drop (index + 1)) := by
  obtain ⟨before, earlier, later⟩ := replay_split replayed index
  obtain ⟨inside, rfl⟩ := List.getElem?_eq_some_iff.mp at_op
  obtain ⟨bound, rfl⟩ := List.getElem?_eq_some_iff.mp at_result
  rw [List.drop_eq_getElem_cons inside, List.drop_eq_getElem_cons bound] at later
  obtain ⟨after, head, tail, performed, rest, same⟩ := replay_cons later
  cases same
  exact ⟨before, after, earlier, performed, rest⟩

theorem accepted_append (first second : List (Op α × Result α)) :
    accepted (first ++ second) = accepted first ++ accepted second := by
  induction first with
  | nil => rfl
  | cons entry rest ih =>
    obtain ⟨op, result⟩ := entry
    cases op <;> cases result <;> simp [accepted, ih]

theorem mem_accepted {entries : List (Op α × Result α)} :
    item ∈ accepted entries ↔ (.enqueue item, .accepted) ∈ entries := by
  induction entries with
  | nil => simp [accepted]
  | cons entry rest ih =>
    obtain ⟨op, result⟩ := entry
    cases op <;> cases result <;> simp [accepted, ih]

theorem mem_taken {entries : List (Op α × Result α)} :
    item ∈ taken entries ↔ (.dequeue, .item item) ∈ entries := by
  induction entries with
  | nil => simp [taken]
  | cons entry rest ih =>
    obtain ⟨op, result⟩ := entry
    cases op <;> cases result <;> simp [taken, ih]

private theorem prefix_of_notMem {front back entries : List α}
    (grows : entries <+: front ++ item :: back)
    (missing : item ∉ entries) : entries <+: front := by
  rcases Nat.lt_or_ge front.length entries.length with longer | fits
  · have whole : front ++ [item] <+: front ++ item :: back := ⟨back, by simp⟩
    have inside := List.prefix_of_prefix_length_le whole grows (by simp; omega)
    exact (missing (inside.subset (by simp))).elim
  · exact List.prefix_of_prefix_length_le grows (List.prefix_append _ _) fits

/-- Where an item is taken, the items taken before it are those accepted before
it. -/
theorem taken_at (replayed : empty.replay ops = some (last, results))
    (at_op : ops[place]? = some .dequeue) (at_result : results[place]? = some (.item item)) :
    ∃ later, accepted (ops.zip results) = taken ((ops.zip results).take place) ++ item :: later := by
  obtain ⟨stored, after, earlier, performed, _⟩ := replay_performed replayed at_op at_result
  obtain ⟨rest, items⟩ : ∃ rest, stored.items = item :: rest := by
    simp only [perform] at performed
    split at performed
    · rename_i head rest found
      cases performed
      exact ⟨rest, found⟩
    · split at performed <;> cases performed
  have conserved := conservation earlier
  have divided : (ops.take place).zip (results.take place) = (ops.zip results).take place :=
    List.take_zipWith.symm
  refine ⟨rest ++ accepted ((ops.zip results).drop place), ?_⟩
  calc accepted (ops.zip results)
      = accepted ((ops.zip results).take place ++ (ops.zip results).drop place) := by
        rw [List.take_append_drop]
    _ = accepted ((ops.zip results).take place) ++ accepted ((ops.zip results).drop place) :=
        accepted_append _ _
    _ = taken ((ops.zip results).take place) ++ item :: (rest ++
          accepted ((ops.zip results).drop place)) := by
        rw [divided, items] at conserved
        simpa [empty] using congrArg (· ++ accepted ((ops.zip results).drop place)) conserved

/-- The store does not let an item overtake another: when `second` is taken, an
item that was accepted before any `second` has been taken already. -/
theorem no_overtaking (replayed : empty.replay ops = some (last, results))
    (firstIn : ops[early]? = some (.enqueue first)) (firstAccepted : results[early]? = some .accepted)
    (order : ∀ index : Nat, ops[index]? = some (.enqueue second) → early < index)
    (out : ops[place]? = some .dequeue) (served : results[place]? = some (.item second)) :
    ∃ before < place, ops[before]? = some .dequeue ∧ results[before]? = some (.item first) := by
  obtain ⟨later, atPlace⟩ := taken_at replayed out served
  have grows : accepted ((ops.zip results).take (early + 1)) <+: accepted (ops.zip results) := by
    conv_rhs => rw [← List.take_append_drop (early + 1) (ops.zip results), accepted_append]
    exact List.prefix_append _ _
  have missing : second ∉ accepted ((ops.zip results).take (early + 1)) := by
    rw [mem_accepted, List.mem_take_iff_getElem]
    rintro ⟨index, bound, here⟩
    have found := List.getElem?_zip_eq_some.mp (List.getElem?_eq_some_iff.mpr ⟨by omega, here⟩)
    have later := order index found.1
    omega
  have member : first ∈ accepted ((ops.zip results).take (early + 1)) := by
    rw [mem_accepted]
    apply List.mem_of_getElem?
    rw [List.getElem?_take_of_lt (Nat.lt_succ_self early)]
    exact List.getElem?_zip_eq_some.mpr ⟨firstIn, firstAccepted⟩
  have gone := (prefix_of_notMem (atPlace ▸ grows) missing).subset member
  rw [mem_taken, List.mem_take_iff_getElem] at gone
  obtain ⟨before, bound, here⟩ := gone
  have found := List.getElem?_zip_eq_some.mp (List.getElem?_eq_some_iff.mpr ⟨by omega, here⟩)
  exact ⟨before, by omega, found⟩

theorem refused_after (replayed : empty.replay ops = some (last, results))
    (closes : Op.close ∈ ops.take late) (asks : ops[late]? = some (.enqueue second)) :
    results[late]? = some .refused := by
  have inside : late < results.length := by
    rw [replay_length replayed]
    exact (List.getElem?_eq_some_iff.mp asks).1
  have there := List.getElem?_eq_getElem inside
  obtain ⟨before, after, earlier, performed, _⟩ := replay_performed replayed asks there
  have closed := (closed_iff earlier).mpr (.inr closes)
  simp only [perform, closed, ↓reduceIte, Option.some.injEq, Prod.mk.injEq] at performed
  rw [there, ← performed.2]

theorem perform_null {store next : Fifo α} (performed : store.perform .dequeue = some (next, .null)) :
    store.closed = true ∧ store.items = [] ∧ next = store := by
  simp only [perform] at performed
  split at performed
  · cases performed
  · rename_i found
    split at performed
    · rename_i shut
      cases performed
      exact ⟨shut, found, rfl⟩
    · cases performed

theorem closed_before_null (replayed : empty.replay ops = some (last, results))
    (asked : ops[early]? = some .dequeue) (nothing : results[early]? = some .null) :
    Op.close ∈ ops.take early := by
  obtain ⟨before, after, earlier, performed, _⟩ := replay_performed replayed asked nothing
  exact ((closed_iff earlier).mp (perform_null performed).1).resolve_left (by simp [empty])

/-- A closed and empty store answers NULL from then on. -/
theorem drained {store : Fifo α} (replayed : store.replay ops = some (last, results))
    (closed : store.closed = true) (nothing : store.items = [])
    (asks : ops[place]? = some .dequeue) : results[place]? = some .null := by
  induction ops generalizing store results place with
  | nil => cases asks
  | cons op rest ih =>
    obtain ⟨next, result, later, performed, replayedRest, rfl⟩ := replay_cons replayed
    cases place with
    | zero =>
      cases asks
      simp only [perform, nothing, closed, ↓reduceIte, Option.some.injEq, Prod.mk.injEq] at performed
      simp [← performed.2]
    | succ place =>
      have still : next.closed = true ∧ next.items = [] := by
        cases op <;> simp [perform, closed, nothing] at performed <;>
          simp [← performed.1, closed, nothing]
      rw [List.getElem?_cons_succ] at asks ⊢
      exact ih replayedRest still.1 still.2 asks

theorem null_after (replayed : empty.replay ops = some (last, results))
    (asked : ops[early]? = some .dequeue) (nothing : results[early]? = some .null)
    (order : early < late) (asks : ops[late]? = some .dequeue) : results[late]? = some .null := by
  obtain ⟨before, after, _, performed, rest⟩ := replay_performed replayed asked nothing
  obtain ⟨closed, items, rfl⟩ := perform_null performed
  have position : early + 1 + (late - (early + 1)) = late := by omega
  have asksThere : (ops.drop (early + 1))[late - (early + 1)]? = some .dequeue := by
    rw [List.getElem?_drop, position]
    exact asks
  have there := drained rest closed items asksThere
  rwa [List.getElem?_drop, position] at there

end RequestProxy.Abstract.Fifo
