import RequestProxy.Librequest.Queue
import RequestProxy.Memory.Chain

namespace RequestProxy.Librequest

open RequestProxy.Memory

universe u

variable {α : Type u} {q r : Queue α} {path : List Addr} {items : List α} {node : Addr}

def Queue.links (q : Queue α) (address : Addr) : Option (Option Addr) :=
  (q.nodes address).map Node.next

/-- The shape of a queue: the chain from `front` visits `path`, `rear` is its
last cell, `size` counts it, and its cells hold `items` in order. -/
structure Shape (q : Queue α) (path : List Addr) (items : List α) : Prop where
  chain : Chain q.links q.front path
  rear : q.rear = path.getLast?
  size : q.size = Int32.ofNat path.length
  data : path.map (fun address => (q.nodes address).map Node.data) = items.map some

theorem shape_init : Shape (queueInit : Queue α) [] [] where
  chain := .null
  rear := rfl
  size := rfl
  data := rfl

theorem Shape.length_eq (shape : Shape q path items) : path.length = items.length := by
  simpa using congrArg List.length shape.data

theorem Shape.live (shape : Shape q path items) (member : address ∈ path) :
    ∃ cell : Node α, q.nodes address = some cell := by
  obtain ⟨next, found⟩ := shape.chain.live member
  obtain ⟨cell, present, _⟩ := Option.map_eq_some_iff.mp found
  exact ⟨cell, present⟩

theorem Shape.front_none_iff (shape : Shape q path items) :
    q.front = none ↔ items = [] := by
  rw [shape.chain.head_eq, List.head?_eq_none_iff, ← List.length_eq_zero_iff,
    ← List.length_eq_zero_iff, shape.length_eq]

theorem Shape.rear_none_iff (shape : Shape q path items) :
    q.rear = none ↔ items = [] := by
  rw [shape.rear, List.getLast?_eq_none_iff, ← List.length_eq_zero_iff,
    ← List.length_eq_zero_iff, shape.length_eq]

/-- Only the cells on the path matter to the shape. -/
theorem Shape.frame (shape : Shape q path items) (front : r.front = q.front)
    (rear : r.rear = q.rear) (size : r.size = q.size)
    (cells : ∀ address ∈ path, r.nodes address = q.nodes address) :
    Shape r path items where
  chain := by
    rw [front]
    exact shape.chain.frame fun address member => by simp [Queue.links, cells address member]
  rear := rear.trans shape.rear
  size := size.trans shape.size
  data := by
    rw [← shape.data]
    exact List.map_congr_left fun address member => by rw [cells address member]

theorem malloc_eq (fresh : q.nodes node = none) (req : α) :
    q.malloc node req =
      some { q with nodes := Function.update q.nodes node (some ⟨req, none⟩) } := by
  simp [Queue.malloc, fresh]

theorem free_eq {cell : Node α} (live : q.nodes node = some cell) :
    q.free node = some { q with nodes := Function.update q.nodes node none } := by
  simp [Queue.free, live]

theorem Shape.update_off (shape : Shape q path items) (outside : node ∉ path)
    (cell : Option (Node α)) :
    Shape { q with nodes := Function.update q.nodes node cell } path items := by
  refine shape.frame rfl rfl rfl ?_
  intro address member
  have different : address ≠ node := fun same => outside (same ▸ member)
  simp [different]

theorem Shape.fresh_off (shape : Shape q path items) (fresh : q.nodes node = none) :
    node ∉ path := by
  intro member
  obtain ⟨cell, live⟩ := shape.live member
  simp [fresh] at live

/-- What `queue_enqueue` does on an open queue: the node, filled before the
lock was taken, becomes the last cell, and only the old last cell changes. -/
theorem Shape.enqueue (shape : Shape q path items) (opened : q.closed = false)
    (filled : q.nodes node = some ⟨req, none⟩) (outside : node ∉ path) :
    ∃ r, enqueueLocked q node = some (r, true) ∧ Shape r (path ++ [node]) (items ++ [(req : α)]) ∧
      r.closed = q.closed ∧ ∀ address, address ∉ path → r.nodes address = q.nodes address := by
  have sizes : q.size + 1 = Int32.ofNat (path ++ [node]).length := by
    rw [List.length_append, List.length_singleton, Int32.ofNat_add, shape.size]
    rfl
  cases ends : path.getLast? with
  | none =>
    have empty := List.getLast?_eq_none_iff.mp ends
    have noItems : items = [] := List.length_eq_zero_iff.mp (by rw [← shape.length_eq, empty]; rfl)
    have noRear : q.rear = none := shape.rear.trans ends
    refine ⟨{ q with front := some node, rear := some node, size := q.size + 1 }, ?_, ?_, rfl, ?_⟩
    · simp [enqueueLocked, opened, noRear]
    · subst empty noItems
      exact ⟨.cell (by simp [Queue.links, filled]) .null, rfl, sizes, by simp [filled]⟩
    · exact fun _ _ => rfl
  | some tail =>
    have member := List.mem_of_getLast? ends
    obtain ⟨cell, live⟩ := shape.live member
    have rear : q.rear = some tail := shape.rear.trans ends
    have different : node ≠ tail := fun same => outside (same ▸ member)
    refine ⟨{ q with
      nodes := Function.update q.nodes tail (some { cell with next := some node })
      rear := some node
      size := q.size + 1 }, ?_, ?_, rfl, ?_⟩
    · simp [enqueueLocked, opened, rear, Queue.setNext, live]
    · refine ⟨?_, by simp, sizes, ?_⟩
      · refine shape.chain.push ends (by simp [Queue.links])
          (by simp [Queue.links, Function.update_of_ne different, filled]) ?_
        intro other _ apart
        simp [Queue.links, apart]
      · rw [List.map_append, List.map_append, ← shape.data]
        congr 1
        · apply List.map_congr_left
          intro address _
          by_cases same : address = tail
          · subst same
            simp [live]
          · simp [same]
        · simp [different, filled]
    · intro address off
      have apart : address ≠ tail := fun same => off (same ▸ member)
      simp [apart]

/-- On a closed queue `queue_enqueue` only frees the node it brought. -/
theorem enqueueLocked_closed (closed : q.closed = true) (live : q.nodes node = some cell) :
    enqueueLocked q node =
      some ({ q with nodes := Function.update q.nodes node (none : Option (Node α)) }, false) := by
  simp [enqueueLocked, closed, free_eq live]

/-- `queue_dequeue` unlinks the first cell and leaves every cell as it was. -/
theorem Shape.dequeue (shape : Shape q path ((req : α) :: items)) :
    ∃ node rest r cell, path = node :: rest ∧ dequeueLocked q = some (.node r node) ∧
      Shape r rest items ∧ r.closed = q.closed ∧ r.nodes = q.nodes ∧
      q.nodes node = some cell ∧ cell.data = req := by
  cases path with
  | nil => simpa using shape.length_eq
  | cons node rest =>
    obtain ⟨cell, live⟩ := shape.live (List.mem_cons_self : node ∈ node :: _)
    have front : q.front = some node := shape.chain.head_eq
    have tail : Chain q.links cell.next rest := by
      obtain ⟨next, found, remaining⟩ := shape.chain.uncons
      simp only [Queue.links, live, Option.map_some, Option.some.injEq] at found
      exact found ▸ remaining
    have parts := shape.data
    rw [List.map_cons, List.map_cons, live] at parts
    obtain ⟨first, others⟩ := List.cons.inj parts
    refine ⟨node, rest, { q with
        front := cell.next
        rear := if cell.next.isNone then none else q.rear
        size := q.size - 1 }, cell, rfl, ?_, ⟨tail, ?_, ?_, others⟩, rfl, rfl, live, ?_⟩
    · cases after : cell.next <;> simp [dequeueLocked, front, live, after]
    · rw [tail.head_eq, shape.rear]
      cases rest <;> simp [List.getLast?_cons_cons]
    · have sizes := shape.size
      rw [List.length_cons, Int32.ofNat_add] at sizes
      rw [sizes]
      exact Int32.add_sub_cancel _ _
    · simpa using first

theorem Shape.dequeue_empty (shape : Shape q path ([] : List α)) :
    dequeueLocked q = some (if q.closed then .null else .wait) := by
  simp [dequeueLocked, shape.front_none_iff.mpr rfl]

end RequestProxy.Librequest
