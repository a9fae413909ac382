import RequestProxy.Librequest.QueueOwnership

namespace RequestProxy.Librequest.Threads

open RequestProxy.Abstract

universe u

variable {Tid α : Type u} [DecidableEq Tid] {threads next : Threads Tid α}
variable {path : List Addr} {items : List α} {results : List (Result α)}

/-- The pointers form one chain, and the store that performs the operations in
critical-section order has its contents and gave its results. -/
structure RefinesFifo (threads : Threads Tid α) (path : List Addr) (items : List α)
    (results : List (Result α)) : Prop where
  /-- `front` and `rear` are null together. -/
  ends : threads.queue.front = none ↔ threads.queue.rear = none
  /-- The chain from `front` is finite, visits `path` and repeats no node. -/
  chain : Memory.Chain threads.queue.links threads.queue.front path
  acyclic : path.Nodup
  /-- It ends at `rear`, whose `next` is null. -/
  rear : threads.queue.rear = path.getLast?
  terminated : ∀ rear, threads.queue.rear = some rear → threads.queue.links rear = some none
  /-- A live node is on the chain unless one thread has not linked it yet, or
  has unlinked it and not freed it yet. -/
  live : ∀ node, (∃ cell, threads.queue.nodes node = some cell) ↔
    node ∈ path ∨ ∃ thread, (threads.place thread).holds = some node
  apart : ∀ thread node, (threads.place thread).holds = some node → node ∉ path
  size : path.length < 2 ^ 31 → threads.queue.size.toInt = path.length
  /-- The chain holds the items of the store, in order. -/
  data : path.map (fun node => (threads.queue.nodes node).map Node.data) = items.map some
  replayed : Fifo.empty.replay threads.history = some (⟨items, threads.queue.closed⟩, results)
  /-- Each value a call returned is the result of the store. -/
  answers : ∀ ticket value, (ticket, value) ∈ threads.returned →
    ∃ result, results[ticket]? = some result ∧ value.Agrees result
  /-- Accepted items are those dequeued so far followed by those on the chain. -/
  conserved : Fifo.accepted (threads.history.zip results) =
    Fifo.taken (threads.history.zip results) ++ items
  /-- An item is accepted exactly when no close ran before. -/
  accepted : ∀ ticket req, threads.history[ticket]? = some (.enqueue req) →
    (results[ticket]? = some .accepted ↔ Op.close ∉ threads.history.take ticket) ∧
    (results[ticket]? = some .refused ↔ Op.close ∈ threads.history.take ticket)
  /-- A refused call changes no field of the queue. -/
  refused : ∀ thread chosen node req next, threads.place thread = .inside (.enqueue node req) →
    threads.queue.closed = true → step threads (.critical thread chosen) = some next →
    next.queue.front = threads.queue.front ∧ next.queue.rear = threads.queue.rear ∧
      next.queue.size = threads.queue.size ∧ next.queue.closed = threads.queue.closed
  /-- NULL is returned only by a closed and empty queue. -/
  null : ∀ ticket, results[ticket]? = some .null →
    ∃ earlier, Fifo.empty.replay (threads.history.take ticket) = some (⟨[], true⟩, earlier)
  /-- No access to a node that is not live. -/
  safe : (∀ thread body, threads.place thread = .inside body →
      criticalSection threads.queue body ≠ none) ∧
    ∀ thread ticket locals, threads.place thread = .leaving ticket locals →
      epilogue threads.queue locals ≠ none

omit [DecidableEq Tid] in
theorem Ownership.accepted_iff (owned : Ownership threads path items results) {ticket : Nat}
    (asked : threads.history[ticket]? = some (.enqueue req)) :
    (results[ticket]? = some .accepted ↔ Op.close ∉ threads.history.take ticket) ∧
    (results[ticket]? = some .refused ↔ Op.close ∈ threads.history.take ticket) := by
  have inside : ticket < results.length := by
    rw [Fifo.replay_length owned.replayed]
    exact (List.getElem?_eq_some_iff.mp asked).1
  obtain ⟨op, before, after, earlier, found, prior, performed⟩ :=
    Fifo.replay_at owned.replayed (List.getElem?_eq_getElem inside)
  have closed := Fifo.closed_iff prior
  cases asked.symm.trans found
  rw [List.getElem?_eq_getElem inside]
  cases shut : before.closed with
  | true =>
    simp only [Fifo.perform, shut, ↓reduceIte, Option.some.injEq, Prod.mk.injEq] at performed
    have member : Op.close ∈ threads.history.take ticket := by
      simpa [Fifo.empty, shut] using closed
    simp [← performed.2, member]
  | false =>
    simp only [Fifo.perform, shut, Bool.false_eq_true, ↓reduceIte, Option.some.injEq,
      Prod.mk.injEq] at performed
    have absent : Op.close ∉ threads.history.take ticket := by
      simpa [Fifo.empty, shut] using closed
    simp [← performed.2, absent]

omit [DecidableEq Tid] in
private theorem Ownership.null_closed (owned : Ownership threads path items results) {ticket : Nat}
    (found : results[ticket]? = some .null) :
    ∃ earlier, Fifo.empty.replay (threads.history.take ticket) = some (⟨[], true⟩, earlier) := by
  obtain ⟨op, before, after, earlier, _, prior, performed⟩ := Fifo.replay_at owned.replayed found
  refine ⟨earlier, ?_⟩
  cases op with
  | dequeue =>
    obtain ⟨stored, closed⟩ := before
    cases stored with
    | cons item rest => simp [Fifo.perform] at performed
    | nil =>
      cases closed with
      | true => exact prior
      | false => simp [Fifo.perform] at performed
  | enqueue item =>
    simp only [Fifo.perform] at performed
    split at performed <;> simp at performed
  | close | isclosed | size => simp [Fifo.perform] at performed

private theorem Ownership.refused_unchanged (owned : Ownership threads path items results)
    (ready : threads.place thread = .inside (.enqueue node req))
    (closed : threads.queue.closed = true)
    (taken : threads.step (.critical thread chosen) = some next) :
    next.queue.front = threads.queue.front ∧ next.queue.rear = threads.queue.rear ∧
      next.queue.size = threads.queue.size ∧ next.queue.closed = threads.queue.closed := by
  have brings : (threads.place thread).brings = some (node, req) := by
    simp [ready, Place.brings, Body.brings]
  have ran : criticalSection threads.queue (.enqueue node req) =
      some (.unlock { threads.queue with
        nodes := Function.update threads.queue.nodes node none } .refused .none) := by
    simp [criticalSection, enqueueLocked_closed closed (owned.filled brings)]
  simp only [Threads.step, ready, ran, Option.bind_eq_bind, Option.bind_some, Option.pure_def,
    Option.ite_none_right_eq_some, Option.some.injEq] at taken
  obtain ⟨_, rfl⟩ := taken
  exact ⟨rfl, rfl, rfl, rfl⟩

theorem Ownership.refines (owned : Ownership threads path items results) :
    RefinesFifo threads path items results where
  ends := by rw [owned.shape.front_none_iff, owned.shape.rear_none_iff]
  chain := owned.shape.chain
  acyclic := owned.shape.chain.nodup
  rear := owned.shape.rear
  terminated := fun rear found => owned.shape.chain.last_next (owned.shape.rear.symm.trans found)
  live := by
    intro node
    constructor
    · intro ⟨cell, found⟩
      exact owned.covered found
    · rintro (linked | ⟨thread, held⟩)
      · exact owned.shape.live linked
      · exact (owned.apart held).2
  apart := fun thread node held => (owned.apart held).1
  size := fun fits => by rw [owned.shape.size]; exact Int32.toInt_ofNat_of_lt fits
  data := owned.shape.data
  replayed := owned.replayed
  answers := fun ticket value listed => owned.answers listed
  conserved := by simpa [Fifo.empty] using Fifo.conservation owned.replayed
  accepted := fun ticket req asked => owned.accepted_iff asked
  refused := fun thread chosen node req next ready closed taken =>
    owned.refused_unchanged ready closed taken
  null := fun ticket found => owned.null_closed found
  safe := by
    constructor
    · intro thread body ready faulted
      rcases owned.effect ready with ⟨waits, _⟩ | ⟨_, _, _, _, _, _, ran, _⟩
      · simp [faulted] at waits
      · simp [faulted] at ran
    · intro thread ticket locals ready faulted
      have carries : (threads.place thread).carries = some (ticket, locals) := by
        simp [ready, Place.carries]
      obtain ⟨value, result, answered, _⟩ := owned.tickets carries
      simp [answer, faulted] at answered

/-- In every reachable state the linked queue is a chain of its pending items
and every call returned what a closable FIFO returns. -/
theorem queue_refines_fifo (threads : Threads Tid α) (reached : Reachable threads) :
    ∃ path items results, RefinesFifo threads path items results := by
  obtain ⟨_, path, items, results, owned⟩ := reached.sound
  exact ⟨path, items, results, owned.refines⟩

/-- A producer, a consumer and a closer, with a late enqueue that is refused. -/
def sampleRun : List (Label Nat Nat) :=
  [.call 0 (.enqueue 7) 40, .call 1 .dequeue 0, .lock 1, .critical 1 ∅, .lock 0,
    .critical 0 {1}, .unlock 0, .leave 0, .relock 1, .critical 1 ∅, .unlock 1, .leave 1,
    .call 2 .close 0, .lock 2, .critical 2 ∅, .unlock 2, .leave 2,
    .call 0 (.enqueue 8) 41, .lock 0, .critical 0 ∅, .unlock 0, .leave 0,
    .call 1 .dequeue 0, .lock 1, .critical 1 ∅, .unlock 1, .leave 1]

theorem queue_refines_fifo_sample :
    ∃ threads : Threads Nat Nat, Transition.run step init sampleRun = some threads ∧
      threads.returned = [(0, .accepted), (1, .item 7), (2, .closed), (3, .refused), (4, .null)] ∧
      ∃ path items results, RefinesFifo threads path items results :=
  ⟨_, rfl, rfl, queue_refines_fifo _ ⟨sampleRun, rfl⟩⟩

end RequestProxy.Librequest.Threads
