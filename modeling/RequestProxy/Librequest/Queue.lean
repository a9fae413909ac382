import Mathlib.Logic.Function.Basic

/-! The linked queue of `queue.c`, pointer by pointer. The parts of each
function that run between LOCK_MTX and UNLOCK_MTX are definitions of their
own; a result of `none` is an access to a node that is not live. -/

namespace RequestProxy.Librequest

universe u

variable {α : Type u}

/-- The address of a heap object; the null pointer is the `none` of `Option Addr`. -/
abbrev Addr := Nat

/-- `node_t`. -/
structure Node (α : Type u) where
  data : α
  next : Option Addr

/-- `struct queue` with the `node_t` objects that are live. The mutex and the
condition variable it points to belong to the threads that use it. -/
structure Queue (α : Type u) where
  nodes : Addr → Option (Node α)
  front : Option Addr
  rear : Option Addr
  closed : Bool
  size : Int32

def queueInit : Queue α where
  nodes := fun _ => none
  front := none
  rear := none
  closed := false
  size := 0

/-- `malloc` of a node at an address that is not live, then `node->data = req`
and `node->next = NULL`. -/
def Queue.malloc (q : Queue α) (node : Addr) (req : α) : Option (Queue α) :=
  match q.nodes node with
  | some _ => none
  | none => some { q with nodes := Function.update q.nodes node (some ⟨req, none⟩) }

/-- `free` of a live node. -/
def Queue.free (q : Queue α) (node : Addr) : Option (Queue α) :=
  match q.nodes node with
  | some _ => some { q with nodes := Function.update q.nodes node none }
  | none => none

/-- A store to `node->next`. -/
def Queue.setNext (q : Queue α) (node : Addr) (next : Option Addr) : Option (Queue α) :=
  match q.nodes node with
  | some cell => some { q with nodes := Function.update q.nodes node (some { cell with next }) }
  | none => none

/-- `queue_enqueue` while it holds the mutex. The flag tells whether the queue
took the node, or was closed and the node was freed. -/
def enqueueLocked (q : Queue α) (node : Addr) : Option (Queue α × Bool) :=
  if q.closed then do
    let q ← q.free node
    return (q, false)
  else do
    let q ← match q.rear with
      | some rear => q.setNext rear (some node)
      | none => some { q with front := some node }
    return ({ q with rear := some node, size := q.size + 1 }, true)

/-- What one pass of `queue_dequeue` through its critical section ends in. -/
inductive Dequeue (α : Type u) where
  | wait
  | null
  | node (q : Queue α) (node : Addr)

/-- `queue_dequeue` from its loop test to UNLOCK_MTX. `wait` is the call of
`pthread_cond_wait`, after which the test is made again. -/
def dequeueLocked (q : Queue α) : Option (Dequeue α) :=
  match q.front with
  | none => some (if q.closed then .null else .wait)
  | some node => do
    let cell ← q.nodes node
    let q := { q with front := cell.next }
    let q := if q.front.isNone then { q with rear := none } else q
    return .node { q with size := q.size - 1 } node

/-- `queue_close` while it holds the mutex. -/
def closeLocked (q : Queue α) : Queue α := { q with closed := true }

/-- `queue_enqueue` as one step of the thread that calls it. -/
def queueEnqueue (q : Queue α) (node : Addr) (req : α) : Option (Queue α × Bool) := do
  let q ← q.malloc node req
  enqueueLocked q node

/-- The results of `queue_dequeue` for a caller: it waits, it returns NULL, or
it returns the data of the node it unlinked and freed. -/
inductive Taken (α : Type u) where
  | wait
  | null
  | item (q : Queue α) (req : α)

/-- `queue_dequeue` as one step of the thread that calls it. -/
def queueDequeue (q : Queue α) : Option (Taken α) := do
  match ← dequeueLocked q with
  | .wait => return .wait
  | .null => return .null
  | .node q node =>
    let cell ← q.nodes node
    let q ← q.free node
    return .item q cell.data

/-- One turn of the loop of `queue_destroy`: the front node is freed with its
data. The loop ends at a null front. -/
def queueDestroyTurn (q : Queue α) : Option (Option (Queue α × α)) :=
  match q.front with
  | none => some none
  | some tmp => do
    let cell ← q.nodes tmp
    let q ← { q with front := cell.next }.free tmp
    return some (q, cell.data)

end RequestProxy.Librequest
