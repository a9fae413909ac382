import RequestProxy.Librequest.QueueInvariant

namespace RequestProxy.Librequest.Threads

open RequestProxy.Abstract

universe u

variable {Tid α : Type u} {threads next : Threads Tid α}
variable {path : List Addr} {items : List α} {results : List (Result α)}

/-- The heap is divided between the chain and the threads. The abstract store
that performed `history` holds `items`, and calls return its results. -/
structure Ownership (threads : Threads Tid α) (path : List Addr) (items : List α)
    (results : List (Result α)) : Prop where
  shape : Shape threads.queue path items
  filled : ∀ {thread node req}, (threads.place thread).brings = some (node, req) →
    threads.queue.nodes node = some ⟨req, none⟩
  apart : ∀ {thread node}, (threads.place thread).holds = some node →
    node ∉ path ∧ ∃ cell, threads.queue.nodes node = some cell
  sole : ∀ {thread other node}, (threads.place thread).holds = some node →
    (threads.place other).holds = some node → thread = other
  covered : ∀ {node cell}, threads.queue.nodes node = some cell →
    node ∈ path ∨ ∃ thread, (threads.place thread).holds = some node
  replayed : Fifo.empty.replay threads.history =
    some (⟨items, threads.queue.closed⟩, results)
  tickets : ∀ {thread ticket locals}, (threads.place thread).carries = some (ticket, locals) →
    ∃ value result, answer threads.queue locals = some value ∧
      results[ticket]? = some result ∧ value.Agrees result
  answers : ∀ {ticket value}, (ticket, value) ∈ threads.returned →
    ∃ result, results[ticket]? = some result ∧ value.Agrees result

theorem ownership_init : Ownership (init : Threads Tid α) [] [] [] where
  shape := shape_init
  filled := by simp [init, Place.brings]
  apart := by simp [init, Place.holds, Place.brings, Place.carries]
  sole := by simp [init, Place.holds, Place.brings, Place.carries]
  covered := by simp [init, queueInit]
  replayed := rfl
  tickets := by simp [init, Place.carries]
  answers := by simp [init]

private theorem holds_of_brings {place : Place α} (brings : place.brings = some (node, req)) :
    place.holds = some node := by
  simp [Place.holds, brings]

private theorem holds_of_carries {place : Place α} (carries : place.carries = some (ticket, locals))
    (carried : locals.node? = some node) : place.holds = some node := by
  cases place with
  | unlocking _ _ | leaving _ _ =>
    cases carries
    simpa [Place.holds, Place.brings, Place.carries] using carried
  | outside | locking _ | inside _ | waiting => cases carries

/-- A step that leaves the queue and what every thread holds as they were. -/
theorem Ownership.moved (owned : Ownership threads path items results)
    (queue : next.queue = threads.queue) (history : next.history = threads.history)
    (returned : next.returned = threads.returned)
    (brings : ∀ thread, (next.place thread).brings = (threads.place thread).brings)
    (carries : ∀ thread, (next.place thread).carries = (threads.place thread).carries) :
    Ownership next path items results := by
  have holds (thread) : (next.place thread).holds = (threads.place thread).holds := by
    simp only [Place.holds, brings, carries]
  exact {
    shape := queue ▸ owned.shape
    filled := fun found => queue ▸ owned.filled (brings _ ▸ found)
    apart := fun found => queue ▸ owned.apart (holds _ ▸ found)
    sole := fun first second => owned.sole (holds _ ▸ first) (holds _ ▸ second)
    covered := fun live => by simpa only [holds] using owned.covered (queue ▸ live)
    replayed := by rw [history, queue]; exact owned.replayed
    tickets := fun found => queue ▸ owned.tickets (carries _ ▸ found)
    answers := fun member => owned.answers (returned ▸ member) }

private theorem Ownership.answer_kept (owned : Ownership threads path items results) {r : Queue α}
    (carries : (threads.place thread).carries = some (ticket, locals))
    (kept : ∀ node, (threads.place thread).holds = some node →
      r.nodes node = threads.queue.nodes node) :
    ∃ value result, answer r locals = some value ∧
      results[ticket]? = some result ∧ value.Agrees result := by
  obtain ⟨value, result, answered, found, agrees⟩ := owned.tickets carries
  refine ⟨value, result, ?_, found, agrees⟩
  rw [← answered]
  exact answer_congr fun node carried => kept node (holds_of_carries carries carried)

variable [DecidableEq Tid]

theorem Ownership.relocated (owned : Ownership threads path items results) {place : Place α}
    (queue : next.queue = threads.queue) (history : next.history = threads.history)
    (returned : next.returned = threads.returned)
    (places : next.place = Function.update threads.place thread place)
    (brings : place.brings = (threads.place thread).brings)
    (carries : place.carries = (threads.place thread).carries) :
    Ownership next path items results := by
  refine owned.moved queue history returned ?_ ?_
  all_goals
    intro other
    rw [places]
    by_cases same : other = thread
    · subst same
      simp [brings, carries]
    · simp [same]

/-- One thread exchanges nodes between the heap, the chain and itself. Nodes
of the other threads are out of its reach, so only its own part is to check. -/
theorem Ownership.exchange (owned : Ownership threads path items results)
    {r : Queue α} {place : Place α} {after : List Addr} {stored : List α}
    {extended : List (Result α)} (queue : next.queue = r)
    (places : next.place = Function.update threads.place thread place)
    (shape : Shape r after stored)
    (frame : ∀ node cell, node ∉ path → (threads.place thread).holds ≠ some node →
      threads.queue.nodes node = some cell → r.nodes node = some cell)
    (within : ∀ node ∈ after, node ∈ path ∨ (threads.place thread).holds = some node)
    (filled : ∀ node req, place.brings = some (node, req) → r.nodes node = some ⟨req, none⟩)
    (own : ∀ node, place.holds = some node → node ∉ after ∧ (∃ cell, r.nodes node = some cell) ∧
      (node ∈ path ∨ (threads.place thread).holds = some node ∨ threads.queue.nodes node = none))
    (covered : ∀ node cell, r.nodes node = some cell → node ∈ after ∨ place.holds = some node ∨
      (node ∉ path ∧ (threads.place thread).holds ≠ some node ∧
        threads.queue.nodes node = some cell))
    (replayed : Fifo.empty.replay next.history = some (⟨stored, r.closed⟩, extended))
    (grown : ∀ (ticket : Nat) result, results[ticket]? = some result → extended[ticket]? = some result)
    (tickets : ∀ ticket locals, place.carries = some (ticket, locals) →
      ∃ value result, answer r locals = some value ∧
        extended[ticket]? = some result ∧ value.Agrees result)
    (answers : ∀ ticket value, (ticket, value) ∈ next.returned →
      (ticket, value) ∈ threads.returned ∨
        ∃ result, extended[ticket]? = some result ∧ value.Agrees result) :
    Ownership next after stored extended := by
  have self : next.place thread = place := by rw [places, Function.update_self]
  have before (other) (different : other ≠ thread) : next.place other = threads.place other := by
    rw [places, Function.update_of_ne different]
  have foreign {other node} (different : other ≠ thread)
      (found : (threads.place other).holds = some node) :
      (threads.place thread).holds ≠ some node :=
    fun mine => different (owned.sole found mine)
  have kept {other node} (different : other ≠ thread)
      (found : (threads.place other).holds = some node) :
      r.nodes node = threads.queue.nodes node := by
    obtain ⟨outside, cell, live⟩ := owned.apart found
    rw [live, frame node cell outside (foreign different found) live]
  subst queue
  refine ⟨shape, ?_, ?_, ?_, ?_, replayed, ?_, ?_⟩
  · intro other node req found
    by_cases same : other = thread
    · subst same
      exact filled node req (self ▸ found)
    · rw [before other same] at found
      rw [kept same (holds_of_brings found)]
      exact owned.filled found
  · intro other node found
    by_cases same : other = thread
    · subst same
      exact ⟨(own node (self ▸ found)).1, (own node (self ▸ found)).2.1⟩
    · rw [before other same] at found
      obtain ⟨outside, cell, live⟩ := owned.apart found
      refine ⟨?_, cell, by rw [kept same found, live]⟩
      intro member
      rcases within node member with linked | mine
      · exact outside linked
      · exact foreign same found mine
  · intro first second node foundFirst foundSecond
    have clash {other} (different : other ≠ thread) (mine : place.holds = some node)
        (found : (threads.place other).holds = some node) : False := by
      obtain ⟨outside, cell, live⟩ := owned.apart found
      rcases (own node mine).2.2 with linked | held | free
      · exact outside linked
      · exact foreign different found held
      · simp [free] at live
    by_cases sameFirst : first = thread <;> by_cases sameSecond : second = thread
    · rw [sameFirst, sameSecond]
    · subst sameFirst
      exact (clash sameSecond (self ▸ foundFirst) (before second sameSecond ▸ foundSecond)).elim
    · subst sameSecond
      exact (clash sameFirst (self ▸ foundSecond) (before first sameFirst ▸ foundFirst)).elim
    · exact owned.sole (before first sameFirst ▸ foundFirst)
        (before second sameSecond ▸ foundSecond)
  · intro node cell live
    rcases covered node cell live with linked | mine | ⟨outside, unheld, old⟩
    · exact .inl linked
    · exact .inr ⟨thread, self ▸ mine⟩
    · rcases owned.covered old with linked | ⟨other, found⟩
      · exact (outside linked).elim
      · have different : other ≠ thread := fun same => unheld (same ▸ found)
        exact .inr ⟨other, before other different ▸ found⟩
  · intro other ticket locals carries
    by_cases same : other = thread
    · subst same
      exact tickets ticket locals (self ▸ carries)
    · rw [before other same] at carries
      obtain ⟨value, result, answered, found, agrees⟩ :=
        owned.answer_kept carries fun node held => kept same held
      exact ⟨value, result, answered, grown ticket result found, agrees⟩
  · intro ticket value member
    rcases answers ticket value member with old | new
    · obtain ⟨result, found, agrees⟩ := owned.answers old
      exact ⟨result, grown ticket result found, agrees⟩
    · exact new

theorem Ownership.call (owned : Ownership threads path items results)
    (idle : threads.place thread = .outside)
    (began : prologue threads.queue node op = some (q, body)) :
    Ownership ({ threads with queue := q }.goto thread (.locking body)) path items results := by
  have empty : (threads.place thread).holds = none := by
    simp [idle, Place.holds, Place.brings, Place.carries]
  cases op with
  | enqueue req =>
    simp only [prologue, Queue.malloc, Option.bind_eq_bind] at began
    split at began
    · cases began
    · rename_i fresh
      simp only [Option.bind_some, Option.pure_def, Option.some.injEq, Prod.mk.injEq] at began
      obtain ⟨rfl, rfl⟩ := began
      have outside := owned.shape.fresh_off fresh
      refine owned.exchange rfl rfl (owned.shape.update_off outside _) ?_
        (fun _ member => .inl member) ?_ ?_ ?_ owned.replayed (fun _ _ found => found)
        (by simp [Place.carries]) (fun _ _ member => .inl member)
      · intro held cell _ _ live
        have different : held ≠ node := by
          intro same
          simp [same, fresh] at live
        simpa [different] using live
      · intro held data found
        simp only [Place.brings, Body.brings, Option.some.injEq, Prod.mk.injEq] at found
        simp [found.1, found.2]
      · intro held found
        simp only [Place.holds, Place.brings, Body.brings, Option.map_some, Option.some_or,
          Option.some.injEq] at found
        subst found
        exact ⟨outside, ⟨⟨req, none⟩, by simp⟩, .inr (.inr fresh)⟩
      · intro held cell live
        by_cases same : held = node
        · exact .inr (.inl (by simp [same, Place.holds, Place.brings, Body.brings]))
        · have old : threads.queue.nodes held = some cell := by simpa [same] using live
          by_cases linked : held ∈ path
          · exact .inl linked
          · exact .inr (.inr ⟨linked, by simp [empty], old⟩)
  | dequeue | close | isclosed | size =>
    cases began
    exact owned.relocated rfl rfl rfl rfl (by simp [idle, Place.brings, Body.brings])
      (by simp [idle, Place.carries])

theorem Ownership.finish (owned : Ownership threads path items results)
    {parked woken : Finset Tid} (ready : threads.place thread = .inside body)
    (effect : Effect threads.queue path items body q locals wake after stored result) :
    Ownership ({ threads with
        queue := q, parked, woken
        history := threads.history ++ [body.op]
      }.goto thread (.unlocking threads.history.length locals))
      after stored (results ++ [result]) := by
  have old : (threads.place thread).holds = body.brings.map Prod.fst := by
    simp [ready, Place.holds, Place.brings, Place.carries]
  have new : (Place.unlocking threads.history.length locals : Place α).holds = locals.node? := by
    simp [Place.holds, Place.brings, Place.carries]
  have ticket : (results ++ [result])[threads.history.length]? = some result := by
    rw [← Fifo.replay_length owned.replayed]
    simp
  refine owned.exchange rfl rfl (effect.shape owned.shape) ?_ ?_ (by simp [Place.brings]) ?_ ?_
    (Fifo.replay_concat owned.replayed effect.performed) ?_ ?_ (fun _ _ member => .inl member)
  · intro node cell outside foreign live
    rw [goto_queue, effect.frame outside (old ▸ foreign), live]
  · intro node member
    rw [old]
    exact effect.path_from member
  · intro node carried
    obtain ⟨linked, off, live⟩ := effect.unlinked owned.shape (new ▸ carried)
    exact ⟨off, live, .inl linked⟩
  · intro node cell live
    rw [old, new]
    by_cases known : node ∈ path ∨ body.brings.map Prod.fst = some node
    · rcases effect.covered live known with linked | carried
      · exact .inl linked
      · exact .inr (.inl carried)
    · obtain ⟨outside, foreign⟩ := not_or.mp known
      exact .inr (.inr ⟨outside, foreign, (effect.frame outside foreign) ▸ live⟩)
  · intro ticket result found
    rw [List.getElem?_append_left (List.getElem?_eq_some_iff.mp found).1]
    exact found
  · intro index carried found
    cases found
    obtain ⟨value, answered, agrees⟩ := effect.agrees owned.shape
    exact ⟨value, result, answered, ticket, agrees⟩

theorem Ownership.leave (owned : Ownership threads path items results)
    (ready : threads.place thread = .leaving ticket locals)
    (ended : epilogue threads.queue locals = some (q, value)) :
    Ownership ({ threads with
        queue := q, returned := threads.returned ++ [(ticket, value)] }.goto thread .outside)
      path items results := by
  have carries : (threads.place thread).carries = some (ticket, locals) := by
    simp [ready, Place.carries]
  have held : (threads.place thread).holds = locals.node? := by
    simp [ready, Place.holds, Place.brings, Place.carries]
  obtain ⟨expected, result, answered, found, agrees⟩ := owned.tickets carries
  have same : expected = value := by simpa [answer, ended] using answered.symm
  subst same
  have answers (index : Nat) (member : Returned α)
      (listed : (index, member) ∈ threads.returned ++ [(ticket, expected)]) :
      (index, member) ∈ threads.returned ∨
        ∃ result, results[index]? = some result ∧ member.Agrees result := by
    rcases List.mem_append.mp listed with before | last
    · exact .inl before
    · cases List.mem_singleton.mp last
      exact .inr ⟨result, found, agrees⟩
  -- only `queue_dequeue` still has a node to free
  have freed : (∃ node cell, locals = .node node ∧ threads.queue.nodes node = some cell ∧
      q = { threads.queue with nodes := Function.update threads.queue.nodes node none }) ∨
      (locals.node? = none ∧ q = threads.queue) := by
    cases locals with
    | node node =>
      obtain ⟨_, cell, live⟩ := owned.apart held
      left
      refine ⟨node, cell, rfl, live, ?_⟩
      simp only [epilogue, live, Option.bind_eq_bind, Option.bind_some, free_eq live,
        Option.pure_def, Option.some.injEq, Prod.mk.injEq] at ended
      exact ended.1.symm
    | accepted | refused | null | closed | status _ | size _ =>
      cases ended
      exact .inr ⟨rfl, rfl⟩
  rcases freed with ⟨node, cell, rfl, live, rfl⟩ | ⟨nothing, rfl⟩
  · obtain ⟨outside, _⟩ := owned.apart held
    refine owned.exchange rfl rfl (owned.shape.update_off outside none) ?_
      (fun _ member => .inl member) (by simp [Place.brings])
      (by simp [Place.holds, Place.brings, Place.carries]) ?_ owned.replayed
      (fun _ _ listed => listed) (by simp [Place.carries]) answers
    · intro other cell _ foreign old
      have different : other ≠ node := by
        intro equal
        exact foreign (by rw [held, equal]; rfl)
      simpa [different] using old
    · intro other cell old
      have different : other ≠ node := by
        intro equal
        simp [equal] at old
      have before : threads.queue.nodes other = some cell := by simpa [different] using old
      by_cases linked : other ∈ path
      · exact .inl linked
      · refine .inr (.inr ⟨linked, ?_, before⟩)
        rw [held]
        simpa [Locals.node?] using Ne.symm different
  · refine owned.exchange rfl rfl owned.shape (fun _ _ _ _ old => old)
      (fun _ member => .inl member) (by simp [Place.brings])
      (by simp [Place.holds, Place.brings, Place.carries]) ?_ owned.replayed
      (fun _ _ listed => listed) (by simp [Place.carries]) answers
    intro other cell old
    by_cases linked : other ∈ path
    · exact .inl linked
    · exact .inr (.inr ⟨linked, by simp [held, nothing], old⟩)

omit [DecidableEq Tid] in
/-- The critical section a thread is in either waits or has an effect. -/
theorem Ownership.effect (owned : Ownership threads path items results)
    (ready : threads.place thread = .inside body) :
    (criticalSection threads.queue body = some .wait ∧ body = .dequeue ∧ items = [] ∧
      threads.queue.closed = false) ∨
    ∃ r locals wake after stored result,
      criticalSection threads.queue body = some (.unlock r locals wake) ∧
        Effect threads.queue path items body r locals wake after stored result := by
  refine criticalSection_effect owned.shape fun node req found => ?_
  have brings : (threads.place thread).brings = some (node, req) := by
    simpa [ready, Place.brings] using found
  exact ⟨owned.filled brings, (owned.apart (holds_of_brings brings)).1⟩

omit [DecidableEq Tid] in
theorem Ownership.effect_of_finished (owned : Ownership threads path items results)
    (ready : threads.place thread = .inside body)
    (finished : criticalSection threads.queue body = some (.unlock q locals wake)) :
    ∃ after stored result,
      Effect threads.queue path items body q locals wake after stored result := by
  rcases owned.effect ready with ⟨waits, _⟩ | ⟨r, carried, call, after, stored, result, ran, effect⟩
  · cases finished.symm.trans waits
  · cases finished.symm.trans ran
    exact ⟨after, stored, result, effect⟩

omit [DecidableEq Tid] in
theorem Ownership.waits_dequeue (owned : Ownership threads path items results)
    (ready : threads.place thread = .inside body)
    (waits : criticalSection threads.queue body = some .wait) :
    body = .dequeue ∧ items = [] ∧ threads.queue.closed = false := by
  rcases owned.effect ready with ⟨_, dequeue⟩ | ⟨_, _, _, _, _, _, ran, _⟩
  · exact dequeue
  · cases waits.symm.trans ran

/-- Every step keeps the heap divided and the abstract run up to date. -/
theorem Ownership.step (owned : Ownership threads path items results)
    (valid : Discipline threads) (taken : Took threads label next) :
    ∃ after stored extended, Ownership next after stored extended := by
  cases taken with
  | call idle began => exact ⟨path, items, results, owned.call idle began⟩
  | leave ready ended => exact ⟨path, items, results, owned.leave ready ended⟩
  | finish ready finished moves =>
    obtain ⟨after, stored, result, effect⟩ := owned.effect_of_finished ready finished
    exact ⟨after, stored, _, owned.finish ready effect⟩
  | @wait thread body _ ready waits =>
    obtain ⟨rfl, _, _⟩ := owned.waits_dequeue ready waits
    exact ⟨path, items, results, owned.relocated rfl rfl rfl rfl
      (by simp [ready, Place.brings, Body.brings]) (by simp [ready, Place.carries])⟩
  | @relock thread free called =>
    have waiting := (valid.waiting thread).mp (.inr called)
    exact ⟨path, items, results, owned.relocated rfl rfl rfl rfl
      (by simp [waiting, Place.brings, Body.brings]) (by simp [waiting, Place.carries])⟩
  | @lock thread body free ready =>
    exact ⟨path, items, results, owned.relocated rfl rfl rfl rfl
      (by simp [ready, Place.brings]) (by simp [ready, Place.carries])⟩
  | @unlock thread ticket locals ready =>
    exact ⟨path, items, results, owned.relocated rfl rfl rfl rfl
      (by simp [ready, Place.brings]) (by simp [ready, Place.carries])⟩
  | spurious waits =>
    exact ⟨path, items, results, owned.moved rfl rfl rfl (fun _ => rfl) (fun _ => rfl)⟩

def Sound (threads : Threads Tid α) : Prop :=
  Discipline threads ∧ ∃ path items results, Ownership threads path items results

theorem sound_invariant :
    Transition.Invariant step (fun _ => True) (init : Threads Tid α) Sound where
  initial := ⟨discipline_init, [], [], [], ownership_init⟩
  preserved := by
    intro threads label next sound _ taken
    obtain ⟨valid, path, items, results, owned⟩ := sound
    exact ⟨valid.step (took taken), owned.step valid (took taken)⟩

theorem Reachable.sound (reached : Reachable threads) : Sound threads := by
  obtain ⟨labels, ran⟩ := reached
  exact sound_invariant.run (fun _ _ => trivial) ran

end RequestProxy.Librequest.Threads
