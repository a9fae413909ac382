import RequestProxy.Librequest.PoolDrain

/-! The accept loop of the proxy next to the pool it starts. The loop puts the
requests into a queue of its own, and the workers take theirs from the queues
of the pool. -/

namespace RequestProxy.Proxy

open Librequest

/-- What the environment gives to a step of `main`: whether `malloc` succeeds,
what `accept` returns, and the address of a node. -/
structure Input where
  allocated : Bool
  accepted : Int
  node : Addr

inductive MainPlace where
  | initializing
  | listening
  | accepting
  | enqueueing (req : Request Int)
  | destroying
  | draining
  | closing
  | returned

/-- The state of the proxy. The work of a request is
`handle_client_request_thread` with its client socket. `enqueued` and `freed`
record the requests that `main` passed to `queue_enqueue` and that
`queue_destroy` found in `request_queue`. -/
structure Server where
  place : MainPlace
  pool : Pool Int
  requestQueue : Option (Queue (Request Int))
  shutdownRequested : Bool
  requests : Nat
  enqueued : List (Request Int)
  freed : List (Request Int)

inductive Label where
  | main (input : Input)
  | sigint
  | worker (index : Nat)
  | spurious (index : Nat)

/-- `main` holds no request and has not come to free `request_queue`. -/
def MainPlace.Moving (place : MainPlace) : Prop :=
  place = .initializing ∨ place = .listening ∨ place = .accepting ∨ place = .destroying

namespace Server

def init : Server where
  place := .initializing
  pool := Pool.init []
  requestQueue := some queueInit
  shutdownRequested := false
  requests := 0
  enqueued := []
  freed := []

def poolStep (numThreads : Nat) (server : Server) (label : Pool.Label Int) : Option Server := do
  let pool ← Pool.step numThreads server.pool label
  return { server with pool }

def mainStep (numThreads : Nat) (server : Server) (input : Input) : Option Server :=
  match server.place with
  | .initializing =>
    match server.pool.main with
    | .adding => some { server with place := .listening }
    | _ => poolStep numThreads server (.main input.node)
  | .listening =>
    if server.shutdownRequested then some { server with place := .destroying }
    else if input.allocated then some { server with place := .accepting }
    else some server
  | .accepting =>
    if input.accepted = -1 then
      if server.shutdownRequested then some { server with place := .destroying }
      else some { server with place := .listening }
    else if input.allocated then
      some { server with
        place := .enqueueing ⟨server.requests, input.accepted⟩
        requests := server.requests + 1 }
    else some { server with place := .listening }
  | .enqueueing req => do
    let (q, _) ← queueEnqueue (← server.requestQueue) input.node req
    return { server with
      place := .listening
      requestQueue := some q
      enqueued := server.enqueued ++ [req] }
  | .destroying =>
    match server.pool.main with
    | .returned => some { server with place := .draining }
    | _ => poolStep numThreads server (.main input.node)
  | .draining => do
    match ← queueDestroyTurn (← server.requestQueue) with
    | some (q, req) =>
      return { server with requestQueue := some q, freed := server.freed ++ [req] }
    | none => return { server with requestQueue := none, place := .closing }
  | .closing => some { server with place := .returned }
  | .returned => none

/-- One step of the proxy; the handlers do not call the pool. -/
def step (numThreads : Nat) (server : Server) : Label → Option Server
  | .main input => mainStep numThreads server input
  | .sigint => some { server with shutdownRequested := true }
  | .worker index => poolStep numThreads server (.worker index)
  | .spurious index => poolStep numThreads server (.spurious index)

/-- `accept` returns a connection, and `main` has the memory to pass it on. -/
def Accepts (server : Server) : Label → Prop
  | .main input => server.place = .accepting ∧ input.accepted ≠ -1 ∧ input.allocated = true
  | .sigint | .worker _ | .spurious _ => False

theorem Accepts.place {server : Server} (accepts : Accepts server label) :
    server.place = .accepting := by
  cases label with
  | main => exact accepts.1
  | sigint | worker | spurious => exact accepts.elim

/-- Every request that `main` passed to `queue_enqueue` was executed once by one
worker, and none was left to `queue_destroy`. -/
def Served (numThreads : Nat) (server : Server) : Prop :=
  (∀ req ∈ server.enqueued,
    ((List.range numThreads).flatMap fun i => (server.pool.slots i).executed).count req = 1) ∧
  server.freed = []

variable {numThreads : Nat} {server next : Server} {input : Input}

/-- All a step of `main` can do, one case for each branch. -/
inductive Turned (numThreads : Nat) (server : Server) (input : Input) : Server → Prop where
  | created (place : server.place = .initializing) (ready : server.pool.main = .adding) :
      Turned numThreads server input { server with place := .listening }
  | create {pool : Pool Int} (place : server.place = .initializing)
      (busy : server.pool.main ≠ .adding)
      (moved : Pool.step numThreads server.pool (.main input.node) = some pool) :
      Turned numThreads server input { server with pool }
  | stop (place : server.place = .listening) (requested : server.shutdownRequested = true) :
      Turned numThreads server input { server with place := .destroying }
  | listen (place : server.place = .listening) (opened : server.shutdownRequested = false) :
      Turned numThreads server input { server with place := .accepting }
  | starve (place : server.place = .listening) (opened : server.shutdownRequested = false) :
      Turned numThreads server input server
  | refuse (place : server.place = .accepting) (requested : server.shutdownRequested = true)
      (failed : input.accepted = -1) :
      Turned numThreads server input { server with place := .destroying }
  | retry (place : server.place = .accepting) (opened : server.shutdownRequested = false)
      (failed : input.accepted = -1) :
      Turned numThreads server input { server with place := .listening }
  | accept (place : server.place = .accepting) (connected : input.accepted ≠ -1)
      (allocated : input.allocated = true) :
      Turned numThreads server input { server with
        place := .enqueueing ⟨server.requests, input.accepted⟩
        requests := server.requests + 1 }
  | drop (place : server.place = .accepting) (connected : input.accepted ≠ -1)
      (full : input.allocated = false) :
      Turned numThreads server input { server with place := .listening }
  | enqueue (place : server.place = .enqueueing req) (live : server.requestQueue = some q)
      (called : queueEnqueue q input.node req = some (r, taken)) :
      Turned numThreads server input { server with
        place := .listening
        requestQueue := some r
        enqueued := server.enqueued ++ [req] }
  | destroyed (place : server.place = .destroying) (ready : server.pool.main = .returned) :
      Turned numThreads server input { server with place := .draining }
  | destroy {pool : Pool Int} (place : server.place = .destroying)
      (busy : server.pool.main ≠ .returned)
      (moved : Pool.step numThreads server.pool (.main input.node) = some pool) :
      Turned numThreads server input { server with pool }
  | drain (place : server.place = .draining) (live : server.requestQueue = some q)
      (turn : queueDestroyTurn q = some (some (r, req))) :
      Turned numThreads server input { server with
        requestQueue := some r
        freed := server.freed ++ [req] }
  | drained (place : server.place = .draining) (live : server.requestQueue = some q)
      (turn : queueDestroyTurn q = some none) :
      Turned numThreads server input { server with requestQueue := none, place := .closing }
  | close (place : server.place = .closing) :
      Turned numThreads server input { server with place := .returned }

theorem poolStep_some {label : Pool.Label Int}
    (taken : poolStep numThreads server label = some next) :
    ∃ pool, Pool.step numThreads server.pool label = some pool ∧ next = { server with pool } := by
  simp only [poolStep, Option.bind_eq_bind, Option.bind_eq_some_iff, Option.pure_def,
    Option.some.injEq] at taken
  obtain ⟨pool, moved, rfl⟩ := taken
  exact ⟨pool, moved, rfl⟩

theorem turned (taken : mainStep numThreads server input = some next) :
    Turned numThreads server input next := by
  unfold mainStep at taken
  split at taken
  · rename_i place
    split at taken
    · rename_i ready
      cases taken
      exact .created place ready
    · rename_i busy
      obtain ⟨pool, moved, rfl⟩ := poolStep_some taken
      exact .create place (fun ready => busy ready) moved
  · rename_i place
    split at taken
    · rename_i requested
      cases taken
      exact .stop place requested
    · rename_i opened
      split at taken
      · cases taken
        exact .listen place (Bool.eq_false_iff.mpr opened)
      · cases taken
        exact .starve place (Bool.eq_false_iff.mpr opened)
  · rename_i place
    split at taken
    · rename_i failed
      split at taken
      · rename_i requested
        cases taken
        exact .refuse place requested failed
      · rename_i opened
        cases taken
        exact .retry place (Bool.eq_false_iff.mpr opened) failed
    · rename_i connected
      split at taken
      · rename_i allocated
        cases taken
        exact .accept place connected allocated
      · rename_i full
        cases taken
        exact .drop place connected (Bool.eq_false_iff.mpr full)
  · rename_i place
    simp only [Option.bind_eq_bind, Option.bind_eq_some_iff, Option.pure_def,
      Option.some.injEq, Prod.exists] at taken
    obtain ⟨q, live, r, took, called, rfl⟩ := taken
    exact .enqueue place live called
  · rename_i place
    split at taken
    · rename_i ready
      cases taken
      exact .destroyed place ready
    · rename_i busy
      obtain ⟨pool, moved, rfl⟩ := poolStep_some taken
      exact .destroy place (fun ready => busy ready) moved
  · rename_i place
    simp only [Option.bind_eq_bind, Option.bind_eq_some_iff] at taken
    obtain ⟨q, live, turned, turn, taken⟩ := taken
    cases turned with
    | some pair =>
      cases taken
      exact .drain place live turn
    | none =>
      cases taken
      exact .drained place live turn
  · rename_i place
    cases taken
    exact .close place
  · cases taken

/-- All a step can do: the pool moves, or `main` goes to another place, or the
queue of `main` changes. -/
inductive Stepped (numThreads : Nat) (server : Server) (label : Label) : Server → Prop where
  | pool {pool : Pool Int} (idle : ¬Accepts server label) (external : poolLabel.External)
      (taken : Pool.step numThreads server.pool poolLabel = some pool) :
      Stepped numThreads server label { server with pool }
  | interrupt (idle : ¬Accepts server label) :
      Stepped numThreads server label { server with shutdownRequested := true }
  | move {place : MainPlace} (idle : ¬Accepts server label) (before : server.place.Moving)
      (after : place.Moving ∨ place = .draining) :
      Stepped numThreads server label { server with place }
  | accept {fd : Int} (accepts : Accepts server label) : Stepped numThreads server label { server with
      place := .enqueueing ⟨server.requests, fd⟩
      requests := server.requests + 1 }
  | enqueue (place : server.place = .enqueueing req) (live : server.requestQueue = some q)
      (called : queueEnqueue q node req = some (r, taken)) :
      Stepped numThreads server label { server with
        place := .listening
        requestQueue := some r
        enqueued := server.enqueued ++ [req] }
  | drain (place : server.place = .draining) (live : server.requestQueue = some q)
      (turn : queueDestroyTurn q = some (some (r, req))) :
      Stepped numThreads server label { server with
        requestQueue := some r
        freed := server.freed ++ [req] }
  | drained (place : server.place = .draining) (live : server.requestQueue = some q)
      (turn : queueDestroyTurn q = some none) :
      Stepped numThreads server label { server with requestQueue := none, place := .closing }
  | close (place : server.place = .closing) :
      Stepped numThreads server label { server with place := .returned }

theorem stepped (taken : step numThreads server label = some next) :
    Stepped numThreads server label next := by
  cases label with
  | sigint =>
    cases taken
    exact .interrupt id
  | worker index | spurious index =>
    obtain ⟨pool, moved, rfl⟩ := poolStep_some taken
    refine .pool id ?_ moved
    trivial
  | main input =>
    have elsewhere (place : server.place ≠ .accepting) : ¬Accepts server (.main input) :=
      fun accepts => place accepts.1
    cases turned taken with
    | created place | stop place | listen place | destroyed place =>
      exact .move (elsewhere (by simp [place])) (by simp [place, MainPlace.Moving])
        (by simp [MainPlace.Moving])
    | starve place =>
      have again : Stepped numThreads server (.main input) { server with place := .listening } :=
        .move (elsewhere (by simp [place])) (by simp [place, MainPlace.Moving])
          (by simp [MainPlace.Moving])
      rwa [← place] at again
    | create place busy moved | destroy place busy moved =>
      refine .pool (elsewhere (by simp [place])) ?_ moved
      trivial
    | refuse place _ failed | retry place _ failed =>
      exact .move (by simp [Accepts, failed]) (by simp [place, MainPlace.Moving])
        (by simp [MainPlace.Moving])
    | accept place connected allocated => exact .accept ⟨place, connected, allocated⟩
    | drop place _ full =>
      exact .move (by simp [Accepts, full]) (by simp [place, MainPlace.Moving])
        (by simp [MainPlace.Moving])
    | enqueue place live called => exact .enqueue place live called
    | drain place live turn => exact .drain place live turn
    | drained place live turn => exact .drained place live turn
    | close place => exact .close place

/-- The requests of `main` stay in its own queue, and the pool has none. -/
structure Apart (numThreads : Nat) (server : Server) : Prop where
  ok : Pool.PoolOk numThreads server.pool
  routes : Pool.Routed numThreads [] server.pool
  held : ∀ q, server.requestQueue = some q → ∃ items, server.enqueued = server.freed ++ items ∧
    Draining q items ∧ (server.place ≠ .draining → Settled q items ∧ q.closed = false)
  emptied : server.requestQueue = none → server.enqueued = server.freed
  pending : server.requests = 0 ↔ server.enqueued = [] ∧ ∀ req, server.place ≠ .enqueueing req
  closed : server.place = .closing ∨ server.place = .returned → server.requestQueue = none

private theorem apart_init (numThreads : Nat) : Apart numThreads init where
  ok := Pool.poolOk_init numThreads []
  routes := Pool.routed_init numThreads []
  held := by
    intro q live
    cases live
    exact ⟨[], rfl, settled_init.draining, fun _ => ⟨settled_init, rfl⟩⟩
  emptied := by simp [init]
  pending := by simp [init]
  closed := by simp [init]

theorem Apart.step (apart : Apart numThreads server)
    (positive : 0 < numThreads) (taken : Stepped numThreads server label next) :
    Apart numThreads next := by
  have ⟨ok, routes, held, emptied, pending, closed⟩ := apart
  cases taken with
  | pool idle external moved =>
    have both := (Pool.drain_invariant positive []).preserved ⟨ok, routes⟩ external moved
    exact ⟨both.1, both.2, held, emptied, pending, closed⟩
  | interrupt => exact ⟨ok, routes, held, emptied, pending, closed⟩
  | @move place idle before after =>
    have outside : ∀ req, server.place ≠ .enqueueing req ∧ place ≠ .enqueueing req := by
      grind [MainPlace.Moving]
    refine ⟨ok, routes, ?_, emptied, ?_, ?_⟩
    · intro q live
      obtain ⟨items, contents, draining, settled⟩ := held q live
      exact ⟨items, contents, draining, fun _ => settled (by grind [MainPlace.Moving])⟩
    · simpa [outside] using pending
    · grind [MainPlace.Moving]
  | @accept fd accepts =>
    have there := accepts.place
    refine ⟨ok, routes, ?_, emptied, by simp, by simp⟩
    intro q live
    obtain ⟨items, contents, draining, settled⟩ := held q live
    exact ⟨items, contents, draining, fun _ => settled (by simp [there])⟩
  | @enqueue req q node r taken place live called =>
    obtain ⟨items, contents, _, still⟩ := held q live
    obtain ⟨settled, opened⟩ := still (by simp [place])
    obtain ⟨_, same, after⟩ := settled.enqueue called
    have longer : Settled r (items ++ [req]) := by simpa [opened] using after
    have made : server.requests ≠ 0 := fun none => (pending.mp none).2 req place
    refine ⟨ok, routes, ?_, by simp, by simp [made], by simp⟩
    intro s found
    cases found
    exact ⟨items ++ [req], by simp [contents], longer.draining,
      fun _ => ⟨longer, same.trans opened⟩⟩
  | @drain q r req place live turn =>
    obtain ⟨items, contents, draining, _⟩ := held q live
    cases items with
    | nil => cases draining.turn_empty.symm.trans turn
    | cons first items =>
      obtain ⟨s, freed, rest⟩ := draining.turn
      cases freed.symm.trans turn
      refine ⟨ok, routes, ?_, by simp, pending, by simp [place]⟩
      intro t found
      cases found
      exact ⟨items, by simp [contents], rest, by simp [place]⟩
  | @drained q place live turn =>
    obtain ⟨items, contents, draining, _⟩ := held q live
    cases items with
    | nil =>
      refine ⟨ok, routes, by simp, fun _ => by simpa using contents, ?_, by simp⟩
      simpa [place] using pending
    | cons first items =>
      obtain ⟨s, freed, _⟩ := draining.turn
      cases freed.symm.trans turn
  | close place =>
    refine ⟨ok, routes, ?_, emptied, ?_, fun _ => closed (.inl place)⟩
    · intro q live
      cases (closed (.inl place)).symm.trans live
    · simpa [place] using pending

/-- The workers have no request to run, whatever connections `main` accepted. -/
theorem Apart.nothing_executed (apart : Apart numThreads server) (i : Nat) :
    (server.pool.slots i).executed = [] := by
  obtain ⟨made, calls, accepted⟩ := apart.routes.made
  have empty : made = [] := by
    have parts := List.append_eq_nil_iff.mp calls
    exact (List.append_eq_nil_iff.mp parts.1).1
  have nothing : (server.pool.slots i).accepted = [] := by simp [accepted, empty]
  have ok := apart.ok.slots i
  cases there : (server.pool.slots i).queue with
  | none => rw [← (ok.absent there).2, nothing]
  | some q =>
    obtain ⟨_, items, contents⟩ := ok.queue q there
    exact (List.append_eq_nil_iff.mp (contents.accepted.symm.trans nothing)).1

/-- Only an accepted connection makes a request. -/
theorem Stepped.requests (taken : Stepped numThreads server label next) :
    next.requests = server.requests ∧ ¬Accepts server label ∨
      next.requests = server.requests + 1 ∧ Accepts server label := by
  cases taken with
  | pool idle | interrupt idle | move idle => exact .inl ⟨rfl, idle⟩
  | accept accepts => exact .inr ⟨rfl, accepts⟩
  | enqueue place | drain place | drained place | close place =>
    refine .inl ⟨rfl, fun accepts => ?_⟩
    cases accepts.place.symm.trans place

theorem apart_run (positive : 0 < numThreads)
    (ran : Transition.run (step numThreads) init labels = some server) :
    Apart numThreads server := by
  have invariant : Transition.Invariant (step numThreads) (fun _ => True) init
      (Apart numThreads) :=
    ⟨apart_init numThreads, fun apart _ taken => apart.step positive (stepped taken)⟩
  exact invariant.run (fun _ _ => trivial) ran

private theorem requests_grow {start final : Server} (made : start.requests ≠ 0)
    (ran : Transition.run (step numThreads) start labels = some final) :
    final.requests ≠ 0 := by
  have invariant : Transition.Invariant (step numThreads) (fun _ => True) start
      (fun server => server.requests ≠ 0) := by
    refine ⟨made, fun now _ taken => ?_⟩
    rcases (stepped taken).requests with ⟨same, _⟩ | ⟨more, _⟩ <;> omega
  exact invariant.run (fun _ _ => trivial) ran

private theorem requests_zero_iff
    (ran : Transition.run (step numThreads) init labels = some server) :
    server.requests = 0 ↔ ∀ state label,
      Transition.Visits (step numThreads) init labels state label → ¬Accepts state label := by
  constructor
  · intro none state label visited accepts
    obtain ⟨next, later, taken, continued⟩ := visited.taken ran
    refine requests_grow ?_ continued none
    rcases (stepped taken).requests with ⟨_, idle⟩ | ⟨more, _⟩
    · exact absurd accepts idle
    · omega
  · intro idle
    refine Transition.run_guarded (fun server => server.requests = 0) rfl ?_ idle ran
    intro state label next none still taken
    rcases (stepped taken).requests with ⟨same, _⟩ | ⟨_, accepts⟩
    · exact same.trans none
    · exact absurd accepts still

/-- When `main` has returned, every request it made was freed by `queue_destroy`
and none was executed. -/
theorem Apart.returned (apart : Apart numThreads server)
    (done : server.place = .returned) :
    server.freed = server.enqueued ∧ ∀ i, (server.pool.slots i).executed = [] :=
  ⟨(apart.emptied (apart.closed (.inr done))).symm, apart.nothing_executed⟩

/-- A run of the proxy up to the return of `main` serves the requests that `main`
enqueued just when it accepted no connection. -/
theorem served_iff (positive : 0 < numThreads) (labels : List Label)
    (ran : Transition.run (step numThreads) init labels = some server)
    (done : server.place = .returned) :
    Served numThreads server ↔ ∀ state label,
      Transition.Visits (step numThreads) init labels state label → ¬Accepts state label := by
  have apart := apart_run positive ran
  obtain ⟨freed, nothing⟩ := apart.returned done
  rw [← requests_zero_iff ran, apart.pending]
  constructor
  · intro served
    exact ⟨by rw [← freed, served.2], by simp [done]⟩
  · intro ⟨empty, _⟩
    exact ⟨by simp [empty], freed.trans empty⟩

/-- One worker, one connection, then SIGINT. -/
def oneConnection : List Label :=
  let main : Label := .main ⟨true, 5, 40⟩
  [main, main, main, main, main, main, .sigint, main, main, main, main, .worker 0, .worker 0,
    .worker 0, main, main, main, main, main, main, main, main, main]

theorem connection_not_served :
    ¬∀ (numThreads : Nat) (labels : List Label) (server : Server), 0 < numThreads →
      Transition.run (step numThreads) init labels = some server → server.place = .returned →
      Served numThreads server := by
  intro serves
  have served := serves 1 oneConnection _ (by decide) rfl rfl
  cases served.2

def noConnection : List Label :=
  let main : Label := .main ⟨true, -1, 40⟩
  [main, main, main, main, .sigint, main, main, main, main, .worker 0, .worker 0, .worker 0, main,
    main, main, main, main, main, main, main]

theorem served_iff_sample :
    (∃ server, Transition.run (step 1) init noConnection = some server ∧
      server.place = .returned ∧ (Served 1 server ↔ ∀ state label,
        Transition.Visits (step 1) init noConnection state label → ¬Accepts state label)) ∧
    ∃ server, Transition.run (step 1) init oneConnection = some server ∧
      server.place = .returned ∧ (Served 1 server ↔ ∀ state label,
        Transition.Visits (step 1) init oneConnection state label → ¬Accepts state label) :=
  ⟨⟨_, rfl, rfl, served_iff (by decide) noConnection rfl rfl⟩,
    ⟨_, rfl, rfl, served_iff (by decide) oneConnection rfl rfl⟩⟩

end Server

end RequestProxy.Proxy
