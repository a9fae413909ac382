import Mathlib.Algebra.Ring.Nat
import RequestProxy.Librequest.QueueShape
import RequestProxy.Librequest.QueueThreads

namespace RequestProxy.Librequest

open RequestProxy.Abstract

universe u

variable {Tid α : Type u}

/-- A returned value agrees with a result of the abstract store. A size is
only compared while it fits an `int`. -/
def Returned.Agrees : Returned α → Result α → Prop
  | .accepted, .accepted => True
  | .refused, .refused => True
  | .item req, .item expected => req = expected
  | .null, .null => True
  | .closed, .closed => True
  | .status flag, .status expected => flag = expected
  | .size count, .size length => length < 2 ^ 31 → count.toInt = length
  | _, _ => False

def Body.brings : Body α → Option (Addr × α)
  | .enqueue node req => some (node, req)
  | _ => none

def Locals.node? : Locals → Option Addr
  | .node address => some address
  | _ => none

/-- The node a thread allocated and has not linked yet, with its data. -/
def Place.brings : Place α → Option (Addr × α)
  | .locking body => body.brings
  | .inside body => body.brings
  | _ => none

/-- The ticket and the locals of a thread whose critical section is over. -/
def Place.carries : Place α → Option (Nat × Locals)
  | .unlocking ticket locals => some (ticket, locals)
  | .leaving ticket locals => some (ticket, locals)
  | _ => none

/-- The live node that only this thread can reach. -/
def Place.holds (place : Place α) : Option Addr :=
  (place.brings.map Prod.fst).or (place.carries.bind fun carried => carried.2.node?)

def Place.ownsMutex : Place α → Prop
  | .inside _ => True
  | .unlocking _ _ => True
  | _ => False

/-- What a call will return, as its locals and its node stand now. -/
def answer (q : Queue α) (locals : Locals) : Option (Returned α) :=
  (epilogue q locals).map Prod.snd

theorem answer_congr {q r : Queue α}
    (same : ∀ node, locals.node? = some node → r.nodes node = q.nodes node) :
    answer r locals = answer q locals := by
  cases locals with
  | node node =>
    have cells := same node rfl
    cases found : q.nodes node <;> simp [answer, epilogue, Queue.free, cells, found]
  | accepted | refused | null | closed | status _ | size _ => rfl

/-- What a critical section does to the queue, to its shape and to the
abstract store when it runs to its end. -/
inductive Effect (q : Queue α) (path : List Addr) (items : List α) :
    Body α → Queue α → Locals → Wake → List Addr → List α → Result α → Prop where
  | accepted (opened : q.closed = false)
      (shape : Shape r (path ++ [node]) (items ++ [req])) (closed : r.closed = q.closed)
      (frame : ∀ address, address ∉ path → r.nodes address = q.nodes address) :
      Effect q path items (.enqueue node req) r .accepted .signal
        (path ++ [node]) (items ++ [req]) .accepted
  | refused (closed : q.closed = true)
      (shape : Shape { q with nodes := Function.update q.nodes node none } path items) :
      Effect q path items (.enqueue node req)
        { q with nodes := Function.update q.nodes node none } .refused .none path items .refused
  | taken (pathEq : path = node :: rest) (itemsEq : items = req :: others)
      (shape : Shape r rest others) (closed : r.closed = q.closed) (nodes : r.nodes = q.nodes)
      (live : q.nodes node = some cell) (data : cell.data = req) :
      Effect q path items .dequeue r (.node node) .none rest others (.item req)
  | null (empty : items = []) (closed : q.closed = true) :
      Effect q path items .dequeue q .null .none path items .null
  | close : Effect q path items .close (closeLocked q) .closed .broadcast path items .closed
  | isclosed : Effect q path items .isclosed q (.status q.closed) .none path items
      (.status q.closed)
  | size : Effect q path items .size q (.size q.size) .none path items (.size items.length)

variable {q r : Queue α} {path after : List Addr} {items stored : List α} {node : Addr}

/-- A critical section cannot fault, waits only to dequeue from an empty open
queue, and otherwise has one of the effects listed. -/
theorem criticalSection_effect (shape : Shape q path items)
    (filled : ∀ node req, (body : Body α).brings = some (node, req) →
      q.nodes node = some ⟨req, none⟩ ∧ node ∉ path) :
    (criticalSection q body = some .wait ∧ body = .dequeue ∧ items = [] ∧ q.closed = false) ∨
    ∃ r locals wake after stored result,
      criticalSection q body = some (.unlock r locals wake) ∧
        Effect q path items body r locals wake after stored result := by
  cases body with
  | enqueue node req =>
    right
    obtain ⟨cell, outside⟩ := filled node req rfl
    cases closed : q.closed with
    | false =>
      obtain ⟨r, linked, extended, kept, frame⟩ := shape.enqueue closed cell outside
      exact ⟨r, _, _, _, _, _, by simp [criticalSection, linked],
        .accepted closed extended kept frame⟩
    | true =>
      exact ⟨_, _, _, _, _, _, by simp [criticalSection, enqueueLocked_closed closed cell],
        .refused closed (shape.update_off outside none)⟩
  | dequeue =>
    cases items with
    | nil =>
      cases closed : q.closed with
      | false =>
        left
        simp [criticalSection, shape.dequeue_empty, closed]
      | true =>
        right
        exact ⟨q, _, _, _, _, _, by simp [criticalSection, shape.dequeue_empty, closed],
          .null rfl closed⟩
    | cons req others =>
      right
      obtain ⟨node, rest, r, cell, pathEq, unlinked, shorter, kept, nodes, live, data⟩ :=
        shape.dequeue
      exact ⟨r, _, _, _, _, _, by simp [criticalSection, unlinked],
        .taken pathEq rfl shorter kept nodes live data⟩
  | close => exact .inr ⟨_, _, _, _, _, _, rfl, .close⟩
  | isclosed => exact .inr ⟨_, _, _, _, _, _, rfl, .isclosed⟩
  | size => exact .inr ⟨_, _, _, _, _, _, rfl, .size⟩

theorem Effect.shape (effect : Effect q path items body r locals wake after stored result)
    (before : Shape q path items) : Shape r after stored := by
  cases effect with
  | accepted _ shape _ _ => exact shape
  | refused _ shape => exact shape
  | taken _ _ shape _ _ _ _ => exact shape
  | null _ _ | isclosed | size => exact before
  | close => exact before.frame rfl rfl rfl fun _ _ => rfl

theorem Effect.performed (effect : Effect q path items body r locals wake after stored result) :
    Fifo.perform ⟨items, q.closed⟩ body.op = some (⟨stored, r.closed⟩, result) := by
  cases effect with
  | accepted opened _ closed _ => simp [Body.op, Fifo.perform, opened, closed]
  | refused closed _ => simp [Body.op, Fifo.perform, closed]
  | taken _ itemsEq _ closed _ _ _ => simp [Body.op, Fifo.perform, itemsEq, closed]
  | null empty closed => simp [Body.op, Fifo.perform, empty, closed]
  | close | isclosed | size => rfl

theorem Effect.agrees (effect : Effect q path items body r locals wake after stored result)
    (before : Shape q path items) :
    ∃ value, answer r locals = some value ∧ value.Agrees result := by
  cases effect with
  | taken _ _ _ _ nodes live data =>
    refine ⟨.item _, ?_, data⟩
    simp [answer, epilogue, Queue.free, nodes, live]
  | size =>
    refine ⟨_, rfl, ?_⟩
    intro fits
    rw [before.size, before.length_eq]
    exact Int32.toInt_ofNat_of_lt fits
  | accepted _ _ _ _ | refused _ _ | null _ _ | close => exact ⟨_, rfl, trivial⟩
  | isclosed => exact ⟨_, rfl, rfl⟩

/-- New cells on the path come from the thread itself. -/
theorem Effect.path_from (effect : Effect q path items body r locals wake after stored result)
    (member : node ∈ after) : node ∈ path ∨ body.brings.map Prod.fst = some node := by
  cases effect with
  | accepted _ _ _ _ =>
    rcases List.mem_append.mp member with old | new
    · exact .inl old
    · exact .inr (congrArg some (List.mem_singleton.mp new).symm)
  | taken pathEq _ _ _ _ _ _ => exact .inl (by rw [pathEq]; exact List.mem_cons_of_mem _ member)
  | refused _ _ | null _ _ | close | isclosed | size => exact .inl member

/-- A node taken out was on the path, is off it now, and is still live. -/
theorem Effect.unlinked (effect : Effect q path items body r locals wake after stored result)
    (before : Shape q path items) (carried : locals.node? = some node) :
    node ∈ path ∧ node ∉ after ∧ ∃ cell, r.nodes node = some cell := by
  cases effect with
  | @taken taken rest req others r cell pathEq _ _ _ nodes live _ =>
    cases carried
    refine ⟨by simp [pathEq], ?_, cell, by rw [nodes, live]⟩
    exact (List.nodup_cons.mp (pathEq ▸ before.chain.nodup)).1
  | accepted _ _ _ _ | refused _ _ | null _ _ | close | isclosed | size => cases carried

theorem Effect.frame (effect : Effect q path items body r locals wake after stored result)
    (outside : node ∉ path) (foreign : body.brings.map Prod.fst ≠ some node) :
    r.nodes node = q.nodes node := by
  cases effect with
  | accepted _ _ _ frame => exact frame node outside
  | refused _ _ =>
    have different : node ≠ _ := fun same => foreign (congrArg some same.symm)
    simp [different]
  | taken _ _ _ _ nodes _ _ => rw [nodes]
  | null _ _ | close | isclosed | size => rfl

/-- No node is dropped: what the thread could reach is linked, carried or freed. -/
theorem Effect.covered (effect : Effect q path items body r locals wake after stored result)
    (live : r.nodes node = some cell)
    (known : node ∈ path ∨ body.brings.map Prod.fst = some node) :
    node ∈ after ∨ locals.node? = some node := by
  cases effect with
  | accepted _ _ _ _ =>
    rcases known with old | own
    · exact .inl (List.mem_append_left _ old)
    · exact .inl (List.mem_append_right _ (List.mem_singleton.mpr (Option.some.inj own).symm))
  | refused _ _ =>
    rcases known with old | own
    · exact .inl old
    · cases own
      simp at live
  | taken pathEq _ _ _ _ _ _ =>
    rcases known with old | own
    · rw [pathEq] at old
      rcases List.mem_cons.mp old with first | later
      · exact .inr (congrArg some first.symm)
      · exact .inl later
    · cases own
  | null _ _ | close | isclosed | size =>
    rcases known with old | own
    · exact .inl old
    · cases own

namespace Threads

variable {q r : Queue α} {node : Addr}

theorem prologue_closed (began : prologue q node op = some (r, (body : Body α))) :
    r.closed = q.closed := by
  cases op with
  | enqueue req =>
    simp only [prologue, Queue.malloc, Option.bind_eq_bind] at began
    split at began <;> simp at began
    rw [← began.1]
  | dequeue | close | isclosed | size => simp_all [prologue]

theorem epilogue_closed (ended : epilogue q locals = some (r, (value : Returned α))) :
    r.closed = q.closed := by
  cases locals with
  | node node =>
    cases found : q.nodes node <;> simp [epilogue, Queue.free, found] at ended
    rw [← ended.1]
  | accepted | refused | null | closed | status _ | size _ => simp_all [epilogue]

variable [DecidableEq Tid] {threads next : Threads Tid α}

/-- Mutual exclusion, and the two kinds of waiting threads. -/
structure Discipline (threads : Threads Tid α) : Prop where
  owner : ∀ thread, threads.owner = some thread ↔ (threads.place thread).ownsMutex
  waiting : ∀ thread, thread ∈ threads.parked ∨ thread ∈ threads.woken ↔
    threads.place thread = .waiting
  disjoint : Disjoint threads.parked threads.woken

omit [DecidableEq Tid] in
theorem discipline_init : Discipline (init : Threads Tid α) where
  owner := by simp [init, Place.ownsMutex]
  waiting := by simp [init]
  disjoint := by simp [init]

private theorem Discipline.owner_moved (valid : Discipline threads) {place : Place α}
    {owner : Option Tid} (self : owner = some thread ↔ place.ownsMutex)
    (others : ∀ other, other ≠ thread → (owner = some other ↔ threads.owner = some other))
    (other : Tid) :
    owner = some other ↔ (Function.update threads.place thread place other).ownsMutex := by
  by_cases same : other = thread
  · subst same
    simpa using self
  · rw [others other same, valid.owner other, Function.update_of_ne same]

private theorem Discipline.waiting_moved (valid : Discipline threads) {place : Place α}
    {parked woken : Finset Tid} (self : thread ∈ parked ∨ thread ∈ woken ↔ place = .waiting)
    (others : ∀ other, other ≠ thread → (other ∈ parked ∨ other ∈ woken ↔
      other ∈ threads.parked ∨ other ∈ threads.woken)) (other : Tid) :
    other ∈ parked ∨ other ∈ woken ↔
      Function.update threads.place thread place other = .waiting := by
  by_cases same : other = thread
  · subst same
    simpa using self
  · rw [others other same, valid.waiting other, Function.update_of_ne same]

omit [DecidableEq Tid] in
private theorem Discipline.awake (valid : Discipline threads)
    (awake : threads.place thread ≠ .waiting) :
    thread ∉ threads.parked ∧ thread ∉ threads.woken :=
  not_or.mp fun waits => awake ((valid.waiting thread).mp waits)

omit [DecidableEq Tid] in
theorem moves_subset {wake : Wake} (moves : wake.Moves threads.parked chosen) :
    chosen ⊆ threads.parked := by
  cases wake with
  | none => simp only [Wake.Moves] at moves; simp [moves]
  | signal => exact moves.1
  | broadcast => exact moves.subset

theorem Discipline.step (valid : Discipline threads) (taken : Took threads label next) :
    Discipline next := by
  cases taken with
  | @call thread op node q body idle began =>
    have awake := valid.awake (by rw [idle]; simp)
    refine ⟨valid.owner_moved ?_ fun _ _ => Iff.rfl, valid.waiting_moved ?_ fun _ _ => Iff.rfl,
      valid.disjoint⟩
    · simp [valid.owner, idle, Place.ownsMutex]
    · simp [awake]
  | @lock thread body free ready =>
    have awake := valid.awake (by rw [ready]; simp)
    refine ⟨valid.owner_moved ?_ ?_, valid.waiting_moved ?_ fun _ _ => Iff.rfl, valid.disjoint⟩
    · simp [Place.ownsMutex]
    · intro other different
      simp [free, Ne.symm different]
    · simp [awake]
  | @wait thread body _ ready waits =>
    have awake := valid.awake (by rw [ready]; simp)
    have owner : threads.owner = some thread := by simp [valid.owner, ready, Place.ownsMutex]
    refine ⟨valid.owner_moved ?_ ?_, valid.waiting_moved ?_ ?_, ?_⟩
    · simp [Place.ownsMutex]
    · intro other different
      simp [owner, Ne.symm different]
    · simp
    · intro other different
      simp [different]
    · exact Finset.disjoint_insert_left.mpr ⟨awake.2, valid.disjoint⟩
  | @finish thread body q locals wake chosen ready finished moves =>
    have awake := valid.awake (by rw [ready]; simp)
    have owner : threads.owner = some thread := by simp [valid.owner, ready, Place.ownsMutex]
    have inside := moves_subset moves
    refine ⟨valid.owner_moved ?_ fun _ _ => Iff.rfl, valid.waiting_moved ?_ ?_, ?_⟩
    · simp [owner, Place.ownsMutex]
    · have apart : thread ∉ chosen := fun member => awake.1 (inside member)
      simp [awake, apart]
    · intro other _
      have moved : other ∈ chosen → other ∈ threads.parked := fun member => inside member
      simp only [goto_parked, goto_woken, Finset.mem_sdiff, Finset.mem_union]
      tauto
    · rw [goto_parked, goto_woken, Finset.disjoint_union_right]
      exact ⟨valid.disjoint.mono_left Finset.sdiff_subset, Finset.sdiff_disjoint⟩
  | @unlock thread ticket locals ready =>
    have awake := valid.awake (by rw [ready]; simp)
    have owner : threads.owner = some thread := by simp [valid.owner, ready, Place.ownsMutex]
    refine ⟨valid.owner_moved ?_ ?_, valid.waiting_moved ?_ fun _ _ => Iff.rfl, valid.disjoint⟩
    · simp [Place.ownsMutex]
    · intro other different
      simp [owner, Ne.symm different]
    · simp [awake]
  | @leave thread ticket locals q value ready ended =>
    have awake := valid.awake (by rw [ready]; simp)
    refine ⟨valid.owner_moved ?_ fun _ _ => Iff.rfl, valid.waiting_moved ?_ fun _ _ => Iff.rfl,
      valid.disjoint⟩
    · simp [valid.owner, ready, Place.ownsMutex]
    · simp [awake]
  | @relock thread free called =>
    have sleeping : thread ∉ threads.parked := Finset.disjoint_right.mp valid.disjoint called
    refine ⟨valid.owner_moved ?_ ?_, valid.waiting_moved ?_ ?_, ?_⟩
    · simp [Place.ownsMutex]
    · intro other different
      simp [free, Ne.symm different]
    · simp [sleeping]
    · intro other different
      simp [different]
    · exact valid.disjoint.mono_right (Finset.erase_subset _ _)
  | @spurious thread waits =>
    refine ⟨valid.owner, ?_, ?_⟩
    · intro other
      rw [← valid.waiting other, Finset.mem_erase, Finset.mem_insert]
      by_cases same : other = thread
      · subst same
        simp [waits]
      · simp [same]
    · rw [Finset.disjoint_insert_right]
      exact ⟨Finset.notMem_erase _ _, valid.disjoint.mono_left (Finset.erase_subset _ _)⟩

end Threads

end RequestProxy.Librequest
