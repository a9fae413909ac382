import RequestProxy.Librequest.PoolDrain
import RequestProxy.Librequest.PoolLifetime
import RequestProxy.Librequest.PoolThreads
import RequestProxy.Transition.Simulation

/-! The pool whose queue functions are one step each stands for the pool that
takes them step by step: a call is one step there when its critical section ends
here, so what holds of every run there holds of every run here. -/

namespace RequestProxy.Librequest

open RequestProxy.Abstract

variable {Job : Type} {numThreads : Nat}

/-- The worker of the coarse pool that stands for one here, and the requests
that it has taken and the one here has not received yet. The view is absent
when the queue has been freed. -/
inductive Pictures : WorkerAt Job → Option (View (Request Job)) → WorkerPc Job →
    List (Request Job) → Prop where
  | unborn : Pictures .unborn view .unborn []
  | starting : Pictures .starting view .starting []
  | testing : Pictures .dequeuing (some .before) .dequeuing []
  | retesting : Pictures .dequeuing (some .before) .woken []
  | parked : Pictures .dequeuing (some .parked) .parked []
  | woken : Pictures .dequeuing (some .woken) .woken []
  | null : Pictures .dequeuing (some (.done (some .null))) .exiting []
  | item : Pictures .dequeuing (some (.done (some (.item req)))) (.working req) [req]
  | working : Pictures (.working req) view (.working req) []
  | adding : Pictures (.adding req nested i) (some .before) (.adding req nested i) []
  | added : Pictures (.adding req nested i) (some (.done result)) (.working req) []
  | strandedBefore : Pictures (.adding req nested i) none (.adding req nested i) []
  | strandedAfter : Pictures (.adding req nested i) none (.working req) []
  | freeing : Pictures (.freeing req) view (.freeing req) []
  | exiting : Pictures .exiting view .exiting []
  | exited : Pictures .exited view .exited []

/-- The place of the owner in the coarse pool. -/
inductive Portrays : MainPc Job → Option (View (Request Job)) → MainPc Job → Prop where
  | before : Portrays main (some .before) main
  | done : Portrays main (some (.done result)) main.resume

/-- An entry of the coarse pool, apart from its thread: the queues hold the same
requests, at whatever addresses. -/
structure Entry.Mirrors (entry : Entry Job) (slot : Slot Job) : Prop where
  worker : slot.worker = entry.worker
  freed : slot.freed = entry.freed
  processed : slot.processed = entry.processed
  absent : entry.shared = none → slot.queue = none
  present : ∀ shared, entry.shared = some shared → ∃ items q, shared.Holds items ∧
    slot.queue = some q ∧ Settled q items ∧ q.closed = shared.queue.closed

/-- The worker is in a queue function, or has to call one. -/
def WorkerAt.inCall : WorkerAt Job → Bool
  | .dequeuing => true
  | .adding _ _ _ => true
  | _ => false

def WorkerAt.pc : WorkerAt Job → WorkerPc Job
  | .unborn => .unborn
  | .starting => .starting
  | .dequeuing => .dequeuing
  | .working req => .working req
  | .adding req nested index => .adding req nested index
  | .freeing req => .freeing req
  | .exiting => .exiting
  | .exited => .exited

private theorem Entry.run_free {entry next : Entry Job} (ran : entry.run = some next) :
    entry.thread.inCall = false := by
  cases place : entry.thread with
  | dequeuing | adding _ _ _ => simp [Entry.run, place] at ran
  | unborn | starting | working _ | freeing _ | exiting | exited => rfl

theorem Entry.Mirrors.thread {entry : Entry Job} {slot : Slot Job} (mirrors : entry.Mirrors slot)
    (place : WorkerAt Job) (pc : WorkerPc Job) :
    { entry with thread := place }.Mirrors { slot with thread := pc } :=
  ⟨mirrors.worker, mirrors.freed, mirrors.processed, mirrors.absent, mirrors.present⟩

theorem Pictures.eq_pc {place : WorkerAt Job} (pictured : Pictures place view thread ahead)
    (free : place.inCall = false) : thread = place.pc ∧ ahead = [] := by
  cases pictured <;> first | exact ⟨rfl, rfl⟩ | cases free

theorem Pictures.of_free {place : WorkerAt Job} (free : place.inCall = false) :
    Pictures place view place.pc [] := by
  cases place with
  | dequeuing | adding _ _ _ => cases free
  | unborn => exact .unborn
  | starting => exact .starting
  | working _ => exact .working
  | freeing _ => exact .freeing
  | exiting => exact .exiting
  | exited => exact .exited

theorem Pictures.settled {place : WorkerAt Job} (pictured : Pictures place view thread ahead) :
    (thread = .unborn → place = .unborn) ∧ (thread = .exited → place = .exited) := by
  cases pictured <;> simp

theorem Pictures.of_parked {place : WorkerAt Job}
    (pictured : Pictures place (some .parked) thread ahead) (called : place.inCall = true) :
    place = .dequeuing ∧ thread = .parked := by
  cases pictured <;> first | exact ⟨rfl, rfl⟩ | cases called

theorem Pictures.is_parked {place : WorkerAt Job} (pictured : Pictures place view thread ahead)
    (parked : thread = .parked) : place = .dequeuing ∧ view = some .parked := by
  cases pictured <;> first | exact ⟨rfl, rfl⟩ | cases parked

/-- A worker at the start of the critical section of `queue_dequeue` can take
that step in the coarse pool, also where it was woken. -/
theorem Pictures.ready {slot : Slot Job}
    (pictured : Pictures .dequeuing (some .before) slot.thread ahead) :
    ahead = [] ∧ workerFunc slot = slot.dequeue := by
  cases thread : slot.thread <;> rw [thread] at pictured <;> cases pictured <;>
    simp [workerFunc, thread]

theorem Pictures.busy {req nested : Request Job}
    (pictured : Pictures (.adding req nested i) view thread ahead) : thread.current ≠ [] := by
  cases pictured <;> simp [WorkerPc.current]

/-- A worker that waits for a queue that is freed under it has taken effect or
has not. -/
theorem Pictures.stranded {req nested : Request Job}
    (pictured : Pictures (.adding req nested i) view thread ahead) :
    Pictures (.adding req nested i) none thread ahead := by
  cases pictured with
  | adding | strandedBefore => exact .strandedBefore
  | added | strandedAfter => exact .strandedAfter

theorem Portrays.eq_of_before {main place : MainPc Job}
    (portrayed : Portrays main (some .before) place) : place = main := by
  cases portrayed
  rfl

/-- What a call returns brings the worker to where its picture is already. -/
theorem Entry.resume_pictured {entry : Entry Job} {value : Returned (Request Job)}
    (pictured : Pictures entry.thread (some (.done (some result))) pc ahead)
    (agrees : value.Agrees result) (called : entry.thread.inCall = true) :
    (entry.resume value).thread.inCall = false ∧ pc = (entry.resume value).thread.pc ∧
      (entry.resume value).executed = entry.executed ++ ahead := by
  cases place : entry.thread with
  | dequeuing =>
    rw [place] at pictured
    cases pictured with
    | null =>
      cases Returned.agrees_null agrees
      simp [Entry.resume, place, WorkerAt.inCall, WorkerAt.pc]
    | item =>
      cases Returned.agrees_item agrees
      simp [Entry.resume, place, WorkerAt.inCall, WorkerAt.pc]
  | adding req nested index =>
    rw [place] at pictured
    cases pictured
    simp [Entry.resume, place, WorkerAt.inCall, WorkerAt.pc]
  | unborn | starting | working _ | freeing _ | exiting | exited => simp [place, WorkerAt.inCall] at called

theorem Entry.resume_kept (entry : Entry Job) (value : Returned (Request Job)) :
    (entry.resume value).worker = entry.worker ∧ (entry.resume value).shared = entry.shared ∧
      (entry.resume value).freed = entry.freed ∧
      (entry.resume value).processed = entry.processed := by
  unfold Entry.resume
  split <;> exact ⟨rfl, rfl, rfl, rfl⟩

theorem Portrays.eq_of_done {main place : MainPc Job}
    (portrayed : Portrays main (some (.done result)) place) : place = main.resume := by
  cases portrayed
  rfl

namespace ThreadedPool

/-- The view of a thread in the call it has to make or is in. -/
def seen (numThreads : Nat) (pool : ThreadedPool Job) (caller : Caller) :
    Option (View (Request Job)) :=
  match pool.calling numThreads caller with
  | none => some .before
  | some (index, _) => (pool.entries index).shared.map fun shared => shared.view caller

/-- A thread is at most in the queue function that it has to call. -/
def InCall (numThreads : Nat) (pool : ThreadedPool Job) : Prop :=
  ∀ index shared, (pool.entries index).shared = some shared → ∀ caller,
    shared.place caller ≠ .outside → ∃ op, pool.calling numThreads caller = some (index, op) ∧
      ∀ asked, (shared.place caller).asks = some asked → asked = op

/-- The coarse pool in the state that stands for this one. -/
structure Seen (numThreads : Nat) (fine : ThreadedPool Job) (pool : Pool Job) : Prop where
  sound : fine.fault = false ∧ pool.fault = false
  allocated : pool.allocated = fine.allocated
  script : pool.script = fine.script
  requests : pool.requests = fine.requests
  drained : pool.drained = fine.drained
  main : Portrays fine.main (fine.seen numThreads .owner) pool.main
  threads : ∀ i, ∃ ahead, Pictures (fine.entries i).thread (fine.seen numThreads (.worker i))
    (pool.slots i).thread ahead ∧ (pool.slots i).executed = (fine.entries i).executed ++ ahead
  entries : ∀ i, (fine.entries i).Mirrors (pool.slots i)
  inCall : fine.InCall numThreads

private theorem vacant_mirrors : (Entry.vacant : Entry Job).Mirrors Slot.vacant where
  worker := rfl
  freed := rfl
  processed := rfl
  absent := fun _ => rfl
  present := by simp [Entry.vacant]

theorem seen_init (script : List (Job × Nat)) : Seen numThreads (init script) (Pool.init script) where
  sound := ⟨rfl, rfl⟩
  allocated := rfl
  script := rfl
  requests := rfl
  drained := rfl
  main := .before
  threads := fun i => ⟨[], .unborn, rfl⟩
  entries := fun i => vacant_mirrors
  inCall := by simp [InCall, init, Entry.vacant]

variable {fine : ThreadedPool Job} {pool : Pool Job}

theorem Seen.outside (related : Seen numThreads fine pool)
    (there : (fine.entries index).shared = some shared)
    (elsewhere : ∀ op, fine.calling numThreads caller ≠ some (index, op)) :
    shared.place caller = .outside := by
  by_contra inside
  obtain ⟨op, calls, _⟩ := related.inCall index shared there caller inside
  exact elsewhere op calls

theorem view_outside {shared : Threads Caller (Request Job)} (out : shared.place caller = .outside) :
    shared.view caller = .before := by
  simp [Threads.view, out]

variable {fine' : ThreadedPool Job} {pool' : Pool Job}

theorem seen_none (idle : fine.calling numThreads caller = none) :
    fine.seen numThreads caller = some .before := by
  simp [seen, idle]

theorem calling_free (free : (fine.entries i).thread.inCall = false) :
    fine.calling numThreads (.worker i) = none := by
  simp only [calling]
  split <;> first | rfl | simp [*, WorkerAt.inCall] at free

theorem inCall_of_calling (calls : fine.calling numThreads (.worker i) = some call) :
    (fine.entries i).thread.inCall = true := by
  cases called : (fine.entries i).thread.inCall with
  | true => rfl
  | false => cases calls.symm.trans (calling_free called)

theorem seen_entered (calls : fine.calling numThreads caller = some (index, op))
    (there : (fine.entries index).shared = some shared) (out : shared.place caller = .outside) :
    fine.seen numThreads caller = some .before := by
  simp [seen, calls, there, view_outside out]

theorem seen_congr (calls : fine'.calling numThreads caller = fine.calling numThreads caller)
    (shared : ∀ index op, fine.calling numThreads caller = some (index, op) →
      (fine'.entries index).shared = (fine.entries index).shared) :
    fine'.seen numThreads caller = fine.seen numThreads caller := by
  unfold seen
  rw [calls]
  cases found : fine.calling numThreads caller with
  | none => rfl
  | some call => simp only [shared call.1 call.2 found]

theorem InCall.kept (inCall : fine.InCall numThreads)
    (calls : ∀ caller index op, fine.calling numThreads caller = some (index, op) →
      fine'.calling numThreads caller = some (index, op))
    (shared : ∀ index shared, (fine'.entries index).shared = some shared →
      (fine.entries index).shared = some shared ∨ ∀ caller, shared.place caller = .outside) :
    fine'.InCall numThreads := by
  intro index users there caller inside
  rcases shared index users there with before | empty
  · obtain ⟨op, called, asks⟩ := inCall index users before caller inside
    exact ⟨op, calls caller index op called, asks⟩
  · exact (inside (empty caller)).elim

theorem Seen.owner (related : Seen numThreads fine pool)
    (idle : fine.calling numThreads .owner = none) (entries : fine'.entries = fine.entries)
    (slots : pool'.slots = pool.slots) (sound : fine'.fault = false ∧ pool'.fault = false)
    (allocated : pool'.allocated = fine'.allocated) (script : pool'.script = fine'.script)
    (requests : pool'.requests = fine'.requests) (drained : pool'.drained = fine'.drained)
    (same : pool'.main = fine'.main)
    (shared : ∀ index op, fine'.calling numThreads .owner = some (index, op) →
      (fine.entries index).shared ≠ none) : Seen numThreads fine' pool' := by
  have workers (i) : fine'.calling numThreads (.worker i) = fine.calling numThreads (.worker i) := by
    simp [calling, entries]
  refine ⟨sound, allocated, script, requests, drained, ?_, ?_, ?_, ?_⟩
  · have before : fine'.seen numThreads .owner = some .before := by
      cases calls : fine'.calling numThreads .owner with
      | none => exact seen_none calls
      | some call =>
        obtain ⟨users, there⟩ := Option.ne_none_iff_exists'.mp (shared call.1 call.2 calls)
        refine seen_entered calls (entries ▸ there) (related.outside there ?_)
        simp [idle]
    rw [before, same]
    exact .before
  · intro i
    rw [seen_congr (workers i) fun _ _ _ => by rw [entries], entries, slots]
    exact related.threads i
  · intro i
    rw [entries, slots]
    exact related.entries i
  · refine related.inCall.kept ?_ fun _ _ there => .inl (entries ▸ there)
    intro caller index op calls
    cases caller with
    | owner => cases idle.symm.trans calls
    | worker i => rw [workers, calls]

theorem Seen.main_eq (related : Seen numThreads fine pool)
    (idle : fine.calling numThreads .owner = none) : pool.main = fine.main :=
  Portrays.eq_of_before (seen_none idle ▸ related.main)

theorem Seen.present_eq (related : Seen numThreads fine pool) (index : Nat) :
    pool.present index = fine.present index := by
  rw [Pool.present, present, related.allocated, (related.entries index).worker]

/-- A queue of an open entry is there for the thread that is to call it. -/
theorem Seen.shared_opened (related : Seen numThreads fine pool) (valid : pool.PoolOk numThreads)
    (opened : pool.main.phase numThreads index = .opened) : (fine.entries index).shared ≠ none := by
  intro missing
  obtain ⟨_, q, _, there, _⟩ := valid.found opened
  cases there.symm.trans ((related.entries index).absent missing)

private theorem create_mirrors : (Entry.create : Entry Job).Mirrors createWorkerThread where
  worker := rfl
  freed := rfl
  processed := rfl
  absent := by simp [Entry.create]
  present := by
    rintro shared ⟨⟩
    exact ⟨[], queueInit, ⟨Threads.discipline_init, [], [], Threads.ownership_init⟩, rfl,
      settled_init, rfl⟩

theorem Seen.calls_of (related : Seen numThreads fine pool)
    (calls : fine.calling numThreads (.worker k) = some (i, op)) :
    (k = i ∧ (fine.entries k).thread = .dequeuing) ∨
      ((∃ req nested, (fine.entries k).thread = .adding req nested i) ∧
        (pool.slots k).thread.current ≠ []) := by
  obtain ⟨ahead, pictured, _⟩ := related.threads k
  simp only [calling] at calls
  split at calls
  · rename_i place
    cases calls
    exact .inl ⟨rfl, place⟩
  · rename_i req nested index place
    cases calls
    refine .inr ⟨⟨req, nested, place⟩, ?_⟩
    exact (place ▸ pictured).busy
  · cases calls

theorem Seen.entry (related : Seen numThreads fine pool) {entry : Entry Job} {slot : Slot Job}
    (entries : fine'.entries = Function.update fine.entries i entry)
    (slots : pool'.slots = Function.update pool.slots i slot)
    (sound : fine'.fault = false ∧ pool'.fault = false)
    (allocated : pool'.allocated = fine'.allocated) (script : pool'.script = fine'.script)
    (requests : pool'.requests = fine'.requests) (drained : pool'.drained = fine'.drained)
    (same : pool'.main = fine'.main) (idle : fine.calling numThreads .owner = none)
    (still : fine'.calling numThreads .owner = none)
    (free : fine.calling numThreads (.worker i) = none)
    (apart : fine'.calling numThreads (.worker i) = none) (mirrors : entry.Mirrors slot)
    (calm : ∀ shared, entry.shared = some shared →
      (fine.entries i).shared = some shared ∨ ∀ caller, shared.place caller = .outside)
    (own : ∃ ahead, Pictures entry.thread (some .before) slot.thread ahead ∧
      slot.executed = entry.executed ++ ahead)
    (others : ∀ k op ahead, fine.calling numThreads (.worker k) = some (i, op) →
      Pictures (fine.entries k).thread (fine.seen numThreads (.worker k)) (pool.slots k).thread
        ahead → Pictures (fine.entries k).thread
        (entry.shared.map fun shared => shared.view (.worker k)) (pool.slots k).thread ahead) :
    Seen numThreads fine' pool' := by
  have entry_at : fine'.entries i = entry := by rw [entries, Function.update_self]
  have slot_at : pool'.slots i = slot := by rw [slots, Function.update_self]
  have entry_off {k} (different : k ≠ i) : fine'.entries k = fine.entries k := by
    rw [entries, Function.update_of_ne different]
  have slot_off {k} (different : k ≠ i) : pool'.slots k = pool.slots k := by
    rw [slots, Function.update_of_ne different]
  have workers {k} (different : k ≠ i) :
      fine'.calling numThreads (.worker k) = fine.calling numThreads (.worker k) := by
    simp [calling, entry_off different]
  refine ⟨sound, allocated, script, requests, drained, ?_, ?_, ?_, ?_⟩
  · rw [seen_none still, same]
    exact .before
  · intro k
    by_cases here : k = i
    · subst here
      rw [seen_none apart, entry_at, slot_at]
      exact own
    · obtain ⟨ahead, pictured, executed⟩ := related.threads k
      rw [entry_off here, slot_off here]
      refine ⟨ahead, ?_, executed⟩
      cases calls : fine.calling numThreads (.worker k) with
      | none =>
        rw [seen_none calls] at pictured
        rwa [seen_none ((workers here).trans calls)]
      | some call =>
        obtain ⟨index, op⟩ := call
        by_cases target : index = i
        · subst target
          have moved := others k op ahead calls pictured
          simpa [seen, workers here, calls, entry_at] using moved
        · rw [seen_congr (workers here)]
          · exact pictured
          · intro other _ called
            cases calls.symm.trans called
            rw [entry_off target]
  · intro k
    by_cases here : k = i
    · subst here
      rw [entry_at, slot_at]
      exact mirrors
    · rw [entry_off here, slot_off here]
      exact related.entries k
  · refine related.inCall.kept ?_ ?_
    · intro caller index op calls
      cases caller with
      | owner => cases idle.symm.trans calls
      | worker k =>
        by_cases here : k = i
        · subst here
          cases free.symm.trans calls
        · rw [workers here, calls]
    · intro index shared there
      by_cases here : index = i
      · subst here
        exact calm shared (entry_at ▸ there)
      · exact .inl (entry_off here ▸ there)

/-- A step of the owner outside the queue functions is one of the coarse pool. -/
theorem Seen.mainStep (related : Seen numThreads fine pool) (valid : pool.PoolOk numThreads)
    (positive : 0 < numThreads) (taken : mainStep numThreads fine = some fine') :
    ∃ pool', Pool.mainStep numThreads pool 0 = some pool' ∧ Seen numThreads fine' pool' := by
  have sound := related.sound
  unfold ThreadedPool.mainStep at taken
  split at taken
  case h_1 i place =>
    have idle : fine.calling numThreads .owner = none := by simp [calling, place]
    have here := (related.main_eq idle).trans place
    split at taken
    · rename_i more
      cases taken
      obtain ⟨ahead, pictured, _⟩ := related.threads i
      have unborn : (fine.entries i).thread = .unborn := by
        refine pictured.settled.1 ((valid.slots i).unborn.mpr ?_)
        simp [here, MainPc.phase]
      refine ⟨_, by simp only [Pool.mainStep, here, more, if_true]; rfl, ?_⟩
      refine related.entry rfl rfl sound related.allocated related.script related.requests
        related.drained rfl idle (by simp [calling]) (by simp [calling, unborn])
        (by simp [calling, setEntry, Entry.create]) create_mirrors ?_ ⟨[], .starting, rfl⟩ ?_
      · rintro shared ⟨⟩
        exact .inr fun _ => rfl
      · intro k op ahead calls _
        rcases related.calls_of calls with ⟨rfl, dequeuing⟩ | ⟨_, busy⟩
        · cases unborn.symm.trans dequeuing
        · exact absurd here (valid.not_running busy i)
    · rename_i last
      cases taken
      refine ⟨_, by simp [Pool.mainStep, here, last]; rfl, ?_⟩
      refine related.owner idle rfl rfl sound related.allocated related.script related.requests
        related.drained rfl ?_
      simp [calling]
  case h_2 place =>
    have idle : fine.calling numThreads .owner = none := by simp [calling, place]
    have here := (related.main_eq idle).trans place
    have opened (index : Nat) (inside : index < numThreads) :=
      related.shared_opened valid (Pool.opened_adding here inside)
    split at taken
    · rename_i calls
      cases taken
      refine ⟨_, by simp [Pool.mainStep, here, related.script, calls]; rfl, ?_⟩
      refine related.owner idle rfl rfl sound related.allocated calls.symm related.requests
        related.drained rfl ?_
      intro index op called
      simp only [calling, Option.ite_none_right_eq_some, Option.some.injEq, Prod.mk.injEq] at called
      exact opened index (called.2.1 ▸ called.1)
    · rename_i job rand rest calls
      have inside := Nat.mod_lt rand positive
      have found := (valid.found (Pool.opened_adding here inside)).1
      rw [related.present_eq] at found
      rw [if_pos found] at taken
      cases taken
      refine ⟨_, by
        simp only [Pool.mainStep, here, related.script, calls, related.present_eq, found]; rfl, ?_⟩
      refine related.owner idle rfl rfl sound related.allocated rfl ?_ related.drained ?_ ?_
      · simp [related.requests]
      · simp [related.requests]
      · intro index op called
        simp only [calling, Option.some.injEq, Prod.mk.injEq] at called
        exact opened index (called.1 ▸ inside)
  case h_3 => cases taken
  case h_4 i place =>
    split at taken
    · cases taken
    · rename_i last
      have idle : fine.calling numThreads .owner = none := by simp [calling, place, last]
      have here := (related.main_eq idle).trans place
      cases taken
      refine ⟨_, by simp [Pool.mainStep, here, last]; rfl, ?_⟩
      refine related.owner idle rfl rfl sound related.allocated related.script related.requests
        related.drained rfl ?_
      simp [calling]
  case h_5 i place =>
    have idle : fine.calling numThreads .owner = none := by simp [calling, place]
    have here := (related.main_eq idle).trans place
    split at taken
    · rename_i more
      split at taken
      · rename_i exited
        cases taken
        obtain ⟨ahead, pictured, _⟩ := related.threads i
        have stopped : (pool.slots i).thread = .exited := by
          rw [exited] at pictured
          exact (pictured.eq_pc rfl).1
        refine ⟨_, by simp only [Pool.mainStep, here, more, stopped, if_true]; rfl, ?_⟩
        refine related.owner idle rfl rfl sound related.allocated related.script related.requests
          related.drained rfl ?_
        simp [calling]
      · cases taken
    · rename_i last
      cases taken
      refine ⟨_, by simp [Pool.mainStep, here, last]; rfl, ?_⟩
      refine related.owner idle rfl rfl sound related.allocated related.script related.requests
        related.drained rfl ?_
      simp [calling]
  case h_6 i place =>
    have idle : fine.calling numThreads .owner = none := by simp [calling, place]
    have here := (related.main_eq idle).trans place
    have inside : i < numThreads := by simpa [here, Pool.InBounds] using valid.bounds
    have phase : pool.main.phase numThreads i = .joined := by
      simp [here, MainPc.phase, Nat.not_le.mpr inside]
    obtain ⟨ahead, pictured, executed⟩ := related.threads i
    have exited := pictured.settled.2 ((valid.slots i).exited (by rw [phase]; rfl))
    simp only [Option.bind_eq_bind, Option.bind_eq_some_iff] at taken
    obtain ⟨shared, there, turned, turn, taken⟩ := taken
    obtain ⟨items, q, ⟨_, path, results, owned⟩, live, settled, _⟩ :=
      (related.entries i).present shared there
    have nothing : items = [] := by
      cases items with
      | nil => rfl
      | cons req rest =>
        obtain ⟨r, first, _⟩ := settled.draining.turn
        cases first.symm.trans (valid.drain_empty here live)
    subst nothing
    have draining : Draining shared.queue [] := ⟨path, owned.shape.chain, owned.shape.data⟩
    cases turn.symm.trans draining.turn_empty
    cases taken
    refine ⟨_, by
      simp only [Pool.mainStep, here, live, valid.drain_empty here live, Option.bind_eq_bind,
        Option.bind_some]; rfl, ?_⟩
    refine related.entry rfl rfl sound related.allocated related.script related.requests
      related.drained rfl idle (by simp [calling]) (by simp [calling, exited])
      (by simp [calling, setEntry, exited]) ?_ (by simp) ?_ ?_
    · exact ⟨(related.entries i).worker, (related.entries i).freed, (related.entries i).processed,
        fun _ => rfl, by simp⟩
    · rw [exited] at pictured ⊢
      obtain ⟨stopped, rfl⟩ := pictured.eq_pc rfl
      exact ⟨[], stopped ▸ .exited, executed⟩
    · intro k op before calls seen
      rcases related.calls_of calls with ⟨rfl, dequeuing⟩ | ⟨⟨req, nested, adding⟩, _⟩
      · cases exited.symm.trans dequeuing
      · rw [adding] at seen ⊢
        exact seen.stranded
  case h_7 i place =>
    have idle : fine.calling numThreads .owner = none := by simp [calling, place]
    have here := (related.main_eq idle).trans place
    have inside : i < numThreads := by simpa [here, Pool.InBounds] using valid.bounds
    have phase : pool.main.phase numThreads i = .emptied := by
      simp [here, MainPc.phase, Nat.not_le.mpr inside]
    obtain ⟨ahead, pictured, executed⟩ := related.threads i
    have exited := pictured.settled.2 ((valid.slots i).exited (by rw [phase]; rfl))
    cases taken
    refine ⟨_, by simp only [Pool.mainStep, here]; rfl, ?_⟩
    refine related.entry rfl rfl sound related.allocated related.script related.requests
      related.drained rfl idle (by simp [calling]) (by simp [calling, exited])
      (by simp [calling, setEntry, exited]) ?_ (fun _ there => .inl there) ?_ ?_
    · exact ⟨rfl, (related.entries i).freed, (related.entries i).processed,
        (related.entries i).absent, (related.entries i).present⟩
    · rw [exited] at pictured ⊢
      obtain ⟨stopped, rfl⟩ := pictured.eq_pc rfl
      exact ⟨[], stopped ▸ .exited, executed⟩
    · intro k op before calls pictured
      simpa [seen, calls] using pictured
  case h_8 place =>
    have idle : fine.calling numThreads .owner = none := by simp [calling, place]
    have here := (related.main_eq idle).trans place
    cases taken
    refine ⟨_, by simp only [Pool.mainStep, here]; rfl, ?_⟩
    refine related.owner idle rfl rfl sound rfl related.script related.requests
      related.drained rfl ?_
    simp [calling]
  case h_9 => cases taken

/-- A worker that is in no call changes its entry, but not the queue. -/
theorem Seen.alone (related : Seen numThreads fine pool) {entry : Entry Job} {slot : Slot Job}
    (entries : fine'.entries = Function.update fine.entries i entry)
    (slots : pool'.slots = Function.update pool.slots i slot)
    (sound : fine'.fault = false ∧ pool'.fault = false)
    (allocated : pool'.allocated = fine'.allocated) (script : pool'.script = fine'.script)
    (requests : pool'.requests = fine'.requests) (drained : pool'.drained = fine'.drained)
    (main : fine'.main = fine.main) (same : pool'.main = pool.main)
    (free : fine.calling numThreads (.worker i) = none) (mirrors : entry.Mirrors slot)
    (shared : entry.shared = (fine.entries i).shared)
    (own : ∃ ahead, Pictures entry.thread (fine'.seen numThreads (.worker i)) slot.thread ahead ∧
      slot.executed = entry.executed ++ ahead) : Seen numThreads fine' pool' := by
  have entry_at : fine'.entries i = entry := by rw [entries, Function.update_self]
  have slot_at : pool'.slots i = slot := by rw [slots, Function.update_self]
  have entry_off {k} (different : k ≠ i) : fine'.entries k = fine.entries k := by
    rw [entries, Function.update_of_ne different]
  have slot_off {k} (different : k ≠ i) : pool'.slots k = pool.slots k := by
    rw [slots, Function.update_of_ne different]
  have queues (k) : (fine'.entries k).shared = (fine.entries k).shared := by
    by_cases here : k = i
    · rw [here, entry_at, shared]
    · rw [entry_off here]
  have owner : fine'.calling numThreads .owner = fine.calling numThreads .owner := by
    simp [calling, main]
  have workers {k} (different : k ≠ i) :
      fine'.calling numThreads (.worker k) = fine.calling numThreads (.worker k) := by
    simp [calling, entry_off different]
  refine ⟨sound, allocated, script, requests, drained, ?_, ?_, ?_, ?_⟩
  · rw [main, same, seen_congr owner fun index _ _ => queues index]
    exact related.main
  · intro k
    by_cases here : k = i
    · subst here
      rw [entry_at, slot_at]
      exact own
    · rw [entry_off here, slot_off here, seen_congr (workers here) fun index _ _ => queues index]
      exact related.threads k
  · intro k
    by_cases here : k = i
    · subst here
      rw [entry_at, slot_at]
      exact mirrors
    · rw [entry_off here, slot_off here]
      exact related.entries k
  · refine related.inCall.kept ?_ fun index users there => .inl (queues index ▸ there)
    intro caller index op calls
    cases caller with
    | owner => rw [owner, calls]
    | worker k =>
      by_cases here : k = i
      · subst here
        cases free.symm.trans calls
      · rw [workers here, calls]

private theorem live_of_running {phase : Phase} {slot : Slot Job} (ok : SlotOk phase slot)
    (born : slot.thread ≠ .unborn) (running : slot.thread ≠ .exited) : slot.queue ≠ none := by
  intro missing
  have gone := (ok.absent missing).1
  cases phase with
  | unborn => exact born (ok.unborn.mpr rfl)
  | opened | closed | joined => cases gone
  | emptied | gone => exact running (ok.exited rfl)

theorem Seen.fresh (related : Seen numThreads fine pool) (valid : pool.PoolOk numThreads)
    (born : (pool.slots i).thread ≠ .unborn) (running : (pool.slots i).thread ≠ .exited)
    (free : fine.calling numThreads (.worker i) = none)
    (shared : (fine'.entries i).shared = (fine.entries i).shared)
    (next : (fine'.entries i).thread = .dequeuing) :
    fine'.seen numThreads (.worker i) = some .before := by
  have live := live_of_running (valid.slots i) born running
  obtain ⟨users, there⟩ : ∃ users, (fine.entries i).shared = some users := by
    refine Option.ne_none_iff_exists'.mp fun missing => live ?_
    exact (related.entries i).absent missing
  have calls : fine'.calling numThreads (.worker i) = some (i, .dequeue) := by
    simp [calling, next]
  exact seen_entered calls (shared.trans there) (related.outside there (by simp [free]))

/-- A step of `worker_func` outside the queue functions is one of the coarse pool. -/
theorem Seen.worker (related : Seen numThreads fine pool) (valid : pool.PoolOk numThreads)
    {entry : Entry Job} (ran : (fine.entries i).run = some entry) :
    ∃ slot, workerFunc (pool.slots i) = some slot ∧
      Seen numThreads (fine.setEntry i entry) (pool.setSlot i slot) := by
  obtain ⟨ahead, pictured, executed⟩ := related.threads i
  have mirrors := related.entries i
  have free := Entry.run_free ran
  obtain ⟨same, rfl⟩ := pictured.eq_pc free
  rw [List.append_nil] at executed
  have idle : fine.calling numThreads (.worker i) = none := calling_free free
  unfold Entry.run at ran
  split at ran
  · rename_i place
    cases ran
    rw [place] at same
    refine ⟨_, by simp only [workerFunc, same, WorkerAt.pc]; rfl, ?_⟩
    refine related.alone rfl rfl related.sound related.allocated related.script related.requests
      related.drained rfl rfl idle (mirrors.thread _ _) rfl ⟨[], ?_, by simpa using executed⟩
    rw [related.fresh valid (by simp [same, WorkerAt.pc]) (by simp [same, WorkerAt.pc]) idle
      (by simp [setEntry]) (by simp [setEntry])]
    exact .testing
  · rename_i req place
    cases ran
    rw [place] at same
    refine ⟨_, by simp only [workerFunc, same, WorkerAt.pc]; rfl, ?_⟩
    exact related.alone rfl rfl related.sound related.allocated related.script related.requests
      related.drained rfl rfl idle (mirrors.thread _ _) rfl ⟨[], .freeing, by simpa using executed⟩
  · rename_i req place
    cases ran
    rw [place] at same
    refine ⟨_, by simp only [workerFunc, same, WorkerAt.pc]; rfl, ?_⟩
    refine related.alone rfl rfl related.sound related.allocated related.script related.requests
      related.drained rfl rfl idle ?_ rfl ⟨[], ?_, by simpa using executed⟩
    · exact ⟨mirrors.worker, by rw [mirrors.freed], by rw [mirrors.processed], mirrors.absent,
        mirrors.present⟩
    · rw [related.fresh valid (by simp [same, WorkerAt.pc]) (by simp [same, WorkerAt.pc]) idle
        (by simp [setEntry]) (by simp [setEntry])]
      exact .testing
  · rename_i place
    cases ran
    rw [place] at same
    refine ⟨_, by simp only [workerFunc, same, WorkerAt.pc]; rfl, ?_⟩
    exact related.alone rfl rfl related.sound related.allocated related.script related.requests
      related.drained rfl rfl idle (mirrors.thread _ _) rfl ⟨[], .exited, by simpa using executed⟩
  all_goals cases ran

/-- A nested call that finds its worker is one of the coarse pool. -/
theorem Seen.nestedAdd (related : Seen numThreads fine pool) (nested : Request Job) (index : Nat)
    (runs : (fine.entries i).thread = .working req) :
    (pool.slots i).thread = .working req ∧
    Seen numThreads
      { fine.setEntry i { fine.entries i with thread := .adding req nested index } with
        requests := fine.requests + 1 }
      { pool.setThread i (.adding req nested index) with requests := pool.requests + 1 } := by
  obtain ⟨ahead, pictured, executed⟩ := related.threads i
  rw [runs] at pictured
  obtain ⟨same, rfl⟩ := pictured.eq_pc rfl
  have idle : fine.calling numThreads (.worker i) = none := calling_free (by simp [runs, WorkerAt.inCall])
  refine ⟨same, ?_⟩
  refine related.alone rfl rfl related.sound related.allocated related.script
    (congrArg (· + 1) related.requests) related.drained rfl rfl idle
    ((related.entries i).thread _ _) rfl ⟨[], ?_, by simpa using executed⟩
  have calls : { fine.setEntry i { fine.entries i with thread := .adding req nested index } with
      requests := fine.requests + 1 }.calling numThreads (.worker i) =
        some (index, .enqueue nested) := by
    simp [calling, setEntry]
  have queues (k) : ((fine.setEntry i
      { fine.entries i with thread := .adding req nested index }).entries k).shared =
        (fine.entries k).shared := by
    by_cases here : k = i
    · subst here
      simp [setEntry]
    · simp [setEntry, here]
  cases there : (fine.entries index).shared with
  | none =>
    have gone : { fine.setEntry i { fine.entries i with thread := .adding req nested index } with
        requests := fine.requests + 1 }.seen numThreads (.worker i) = none := by
      rw [seen, calls]
      exact Option.map_eq_none_iff.mpr ((queues index).trans there)
    rw [gone]
    exact .strandedBefore
  | some users =>
    rw [seen_entered calls ((queues index).trans there)
      (related.outside there (by simp [idle]))]
    exact .adding

end ThreadedPool

end RequestProxy.Librequest
