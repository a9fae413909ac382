import RequestProxy.Librequest.QueueShape
import Mathlib.Data.Fintype.EquivFin

namespace RequestProxy.Librequest

open RequestProxy.Memory

universe u

variable {α : Type u} {q r : Queue α} {items : List α} {node : Addr} {req : α}

/-- A queue no call is working on, with the items it holds. -/
def Settled (q : Queue α) (items : List α) : Prop :=
  ∃ path, Shape q path items ∧ ∀ node cell, q.nodes node = some cell → node ∈ path

theorem settled_init : Settled (queueInit : Queue α) [] :=
  ⟨[], shape_init, fun _ _ live => by simp [queueInit] at live⟩

theorem Settled.close (settled : Settled q items) : Settled (closeLocked q) items := by
  obtain ⟨path, shape, sealed⟩ := settled
  exact ⟨path, shape.frame rfl rfl rfl fun _ _ => rfl, sealed⟩

private theorem queueEnqueue_eq (fresh : q.nodes node = none) :
    queueEnqueue q node req =
      enqueueLocked { q with nodes := Function.update q.nodes node (some ⟨req, none⟩) } node := by
  simp [queueEnqueue, malloc_eq fresh]

/-- What `queue_enqueue` does, whatever free address `malloc` returns. -/
theorem Settled.enqueue_at (settled : Settled q items) (fresh : q.nodes node = none) :
    ∃ r, queueEnqueue q node req = some (r, !q.closed) ∧ r.closed = q.closed ∧
      Settled r (if q.closed then items else items ++ [req]) := by
  obtain ⟨path, shape, sealed⟩ := settled
  have outside := shape.fresh_off fresh
  have filled := shape.update_off outside (some ⟨req, none⟩)
  cases closed : q.closed with
  | true =>
    have ran := enqueueLocked_closed
      (q := { q with nodes := Function.update q.nodes node (some ⟨req, none⟩) }) closed
      (Function.update_self ..)
    refine ⟨_, (queueEnqueue_eq fresh).trans ran, closed, path,
      filled.update_off outside none, ?_⟩
    · intro other cell live
      by_cases same : other = node
      · simp [same] at live
      · exact sealed other cell (by simpa [same] using live)
  | false =>
    have ready : Function.update q.nodes node (some ⟨req, none⟩) node = some ⟨req, none⟩ :=
      Function.update_self ..
    obtain ⟨r, linked, extended, kept, frame⟩ := filled.enqueue closed ready outside
    refine ⟨r, ?_, kept.trans closed, path ++ [node], by simpa using extended, ?_⟩
    · rw [queueEnqueue_eq fresh, linked]
      rfl
    · intro other cell live
      by_cases listed : other ∈ path
      · exact List.mem_append_left _ listed
      · rw [frame other listed] at live
        by_cases same : other = node
        · simp [same]
        · exact absurd (sealed other cell (by simpa [same] using live)) listed

theorem Settled.enqueue (settled : Settled q items)
    (called : queueEnqueue q node req = some (r, accepted)) :
    accepted = !q.closed ∧ r.closed = q.closed ∧
      Settled r (if q.closed then items else items ++ [req]) := by
  cases fresh : q.nodes node with
  | some cell => simp [queueEnqueue, Queue.malloc, fresh] at called
  | none =>
    obtain ⟨s, ran, closed, after⟩ := settled.enqueue_at fresh
    cases ran.symm.trans called
    exact ⟨rfl, closed, after⟩

/-- Some address is free, so `queue_enqueue` can always be called. -/
theorem Settled.enqueue_enabled (settled : Settled q items) (req : α) :
    ∃ node r accepted, queueEnqueue q node req = some (r, accepted) := by
  obtain ⟨path, shape, sealed⟩ := id settled
  obtain ⟨node, outside⟩ := Infinite.exists_notMem_finset path.toFinset
  have fresh : q.nodes node = none := by
    cases found : q.nodes node with
    | none => rfl
    | some cell => exact absurd (List.mem_toFinset.mpr (sealed node cell found)) outside
  obtain ⟨r, ran, _⟩ := settled.enqueue_at fresh
  exact ⟨_, r, _, ran⟩

theorem Settled.dequeue_empty (settled : Settled q ([] : List α)) :
    queueDequeue q = some (if q.closed then .null else .wait) := by
  obtain ⟨path, shape, _⟩ := settled
  cases closed : q.closed <;> simp [queueDequeue, shape.dequeue_empty, closed]

theorem Settled.dequeue (settled : Settled q (req :: items)) :
    ∃ r, queueDequeue q = some (.item r req) ∧ r.closed = q.closed ∧ Settled r items := by
  obtain ⟨path, shape, sealed⟩ := settled
  obtain ⟨node, rest, r, cell, pathEq, unlinked, shorter, kept, nodes, live, data⟩ := shape.dequeue
  have outside : node ∉ rest := (List.nodup_cons.mp (pathEq ▸ shape.chain.nodup)).1
  have still : r.nodes node = some cell := by rw [nodes, live]
  refine ⟨{ r with nodes := Function.update r.nodes node none }, ?_, kept, rest,
    shorter.update_off outside none, ?_⟩
  · simp [queueDequeue, unlinked, still, free_eq still, data]
  · intro other found present
    have different : other ≠ node := by
      intro same
      simp [same] at present
    have before : q.nodes other = some found := by simpa [different, nodes] using present
    rcases List.mem_cons.mp (pathEq ▸ sealed other found before) with first | later
    · exact absurd first different
    · exact later

/-- What the loop of `queue_destroy` relies on: the chain from `front` holds
`items`. It resets neither `rear` nor `size`. -/
def Draining (q : Queue α) (items : List α) : Prop :=
  ∃ path, Chain q.links q.front path ∧
    path.map (fun address => (q.nodes address).map Node.data) = items.map some

theorem Settled.draining (settled : Settled q items) : Draining q items := by
  obtain ⟨path, shape, _⟩ := settled
  exact ⟨path, shape.chain, shape.data⟩

theorem Draining.turn_empty (draining : Draining q ([] : List α)) :
    queueDestroyTurn q = some none := by
  obtain ⟨path, chain, data⟩ := draining
  have empty : path = [] := by simpa using data
  subst empty
  simp [queueDestroyTurn, chain.head_eq]

/-- Each turn of the loop of `queue_destroy` frees the first item. -/
theorem Draining.turn (draining : Draining q (req :: items)) :
    ∃ r, queueDestroyTurn q = some (some (r, req)) ∧ Draining r items := by
  obtain ⟨path, chain, data⟩ := draining
  cases path with
  | nil => simp at data
  | cons tmp rest =>
    simp only [List.map_cons, List.cons.injEq] at data
    obtain ⟨cell, live, first⟩ := Option.map_eq_some_iff.mp data.1
    obtain ⟨next, linked, after⟩ := chain.uncons
    have same : next = cell.next := by simpa [Queue.links, live] using linked.symm
    have outside : tmp ∉ rest := (List.nodup_cons.mp chain.nodup).1
    have apart : ∀ address ∈ rest, address ≠ tmp := by
      intro address member equal
      exact outside (equal ▸ member)
    refine ⟨{ q with front := cell.next, nodes := Function.update q.nodes tmp none }, ?_, rest,
      ?_, ?_⟩
    · simp [queueDestroyTurn, chain.head_eq, live, Queue.free, first]
    · rw [← same]
      refine after.frame fun address member => ?_
      simp [Queue.links, apart address member]
    · rw [← data.2]
      refine List.map_congr_left fun address member => ?_
      simp [apart address member]

theorem Settled.destroy_empty (settled : Settled q ([] : List α)) :
    queueDestroyTurn q = some none :=
  settled.draining.turn_empty

end RequestProxy.Librequest
