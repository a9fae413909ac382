import RequestProxy.Proxy.Main
import RequestProxy.Librequest.PoolTermination
import RequestProxy.Transition.Record

namespace RequestProxy.Proxy

open Librequest Transition

/-- What `main` still has to do, beside the work of its pool and the requests in
its queue. -/
def MainPlace.left : MainPlace → Nat
  | .accepting => 7
  | .enqueueing _ => 6
  | .initializing => 5
  | .listening => 4
  | .destroying => 3
  | .draining => 2
  | .closing => 1
  | .returned => 0

/-- A step that a thread of the proxy takes by itself. -/
def Label.own : Label → Bool
  | .main _ | .worker _ => true
  | .sigint | .spurious _ => false

def Label.wakes : Label → Bool
  | .spurious _ => true
  | .main _ | .sigint | .worker _ => false

/-- A step that a thread of the proxy takes by itself, when this is what `accept`
returns. -/
def Label.ownWith (accepted : Int) : Label → Bool
  | .main input => input.accepted = accepted
  | .worker _ => true
  | .sigint | .spurious _ => false

namespace Server

variable {numThreads : Nat} {server next final : Server} {input : Input}

/-- How far `main` has come with its pool. -/
structure Paced (server : Server) : Prop where
  starting : server.place = .initializing →
    (∃ i, server.pool.main = .creating i) ∨ server.pool.main = .adding
  ended : server.place = .draining ∨ server.place = .closing ∨ server.place = .returned →
    server.pool.main = .returned
  queue : server.requestQueue = none → server.place = .closing ∨ server.place = .returned

private theorem worker_main {pool after : Pool Int} (label : Pool.Label Int)
    (external : label.External)
    (other : ∀ node, label ≠ .main node) (moved : Pool.step numThreads pool label = some after) :
    after.main = pool.main := by
  cases (Pool.stepped moved).2 with
  | worker | spurious => rfl
  | nestedAdd | nestedFault | nestedEnqueue => exact external.elim
  | _ => exact absurd rfl (other _)

private theorem creating_main {pool after : Pool Int} (place : pool.main = .creating i)
    (moved : Pool.step numThreads pool (.main node) = some after) :
    (∃ j, after.main = .creating j) ∨ after.main = .adding := by
  cases (Pool.stepped moved).2 with
  | create => exact .inl ⟨_, rfl⟩
  | created => exact .inr rfl
  | _ => simp_all

theorem Paced.pool (paced : Paced server) {pool : Pool Int}
    (same : pool.main = server.pool.main) : Paced { server with pool } where
  starting := fun place => same ▸ paced.starting place
  ended := fun place => same.trans (paced.ended place)
  queue := paced.queue

theorem Paced.turned (paced : Paced server) (taken : Turned numThreads server input next) :
    Paced next := by
  obtain ⟨starting, ended, queue⟩ := paced
  cases taken with
  | created place | stop place | listen place | refuse place | retry place | accept place
  | drop place =>
    refine ⟨by simp, by simp, fun none => ?_⟩
    have past := queue none
    rw [place] at past
    simp at past
  | starve => exact ⟨starting, ended, queue⟩
  | create place busy moved =>
    obtain ⟨i, creating⟩ := (starting place).resolve_right busy
    exact ⟨fun _ => creating_main creating moved, by simp [place], queue⟩
  | enqueue => exact ⟨by simp, by simp, by simp⟩
  | destroyed place ready =>
    refine ⟨by simp, fun _ => ready, fun none => ?_⟩
    have past := queue none
    rw [place] at past
    simp at past
  | destroy place => exact ⟨by simp [place], by simp [place], queue⟩
  | drain place => exact ⟨by simp [place], fun _ => ended (.inl place), by simp⟩
  | drained place => exact ⟨by simp, fun _ => ended (.inl place), by simp⟩
  | close place => exact ⟨by simp, fun _ => ended (.inr (.inl place)), by simp⟩

theorem Paced.step (paced : Paced server) (taken : Server.step numThreads server label = some next) :
    Paced next := by
  cases label with
  | main input => exact paced.turned (Server.turned taken)
  | sigint =>
    cases taken
    exact ⟨paced.starting, paced.ended, paced.queue⟩
  | worker i =>
    obtain ⟨pool, moved, rfl⟩ := poolStep_some taken
    exact paced.pool (worker_main (.worker i) trivial (by simp) moved)
  | spurious i =>
    obtain ⟨pool, moved, rfl⟩ := poolStep_some taken
    exact paced.pool (worker_main (.spurious i) trivial (by simp) moved)

structure Stopping (numThreads : Nat) (server : Server) : Prop where
  apart : Apart numThreads server
  paced : Paced server
  requested : server.shutdownRequested = true

private theorem step_requested (requested : server.shutdownRequested = true)
    (taken : Server.step numThreads server label = some next) :
    next.shutdownRequested = true := by
  cases label with
  | main input => cases Server.turned taken <;> exact requested
  | sigint =>
    cases taken
    rfl
  | worker i | spurious i =>
    obtain ⟨pool, _, rfl⟩ := poolStep_some taken
    exact requested

theorem Stopping.step (stopping : Stopping numThreads server) (positive : 0 < numThreads)
    (taken : Server.step numThreads server label = some next) : Stopping numThreads next :=
  ⟨stopping.apart.step positive (stepped taken), stopping.paced.step taken,
    step_requested stopping.requested taken⟩

/-- The steps a proxy that is to shut down has left at most, as long as nothing
wakes a worker for no reason. -/
def left (numThreads : Nat) (server : Server) : Nat :=
  server.place.left + (server.enqueued.length - server.freed.length) + server.pool.work numThreads

private theorem Apart.drawsInside (apart : Apart numThreads server) :
    Pool.DrawsInside numThreads server.pool := fun i req nested target adding =>
  absurd ⟨req, nested, target, adding⟩ (apart.routes.plain i)

private theorem Apart.pool_falls (apart : Apart numThreads server) (positive : 0 < numThreads)
    {pool : Pool Int} (label : Pool.Label Int) (own : label.own = true)
    (moved : Pool.step numThreads server.pool label = some pool) :
    pool.work numThreads < server.pool.work numThreads :=
  apart.ok.work_falls apart.drawsInside positive (Pool.stepped moved).2 own

theorem Stopping.falls (stopping : Stopping numThreads server) (positive : 0 < numThreads)
    (own : label.own = true) (taken : Server.step numThreads server label = some next) :
    next.left numThreads < server.left numThreads := by
  obtain ⟨apart, paced, requested⟩ := stopping
  cases label with
  | sigint | spurious => cases own
  | worker i =>
    obtain ⟨pool, moved, rfl⟩ := poolStep_some taken
    have lower := apart.pool_falls positive _ rfl moved
    simp only [left]
    omega
  | main input =>
    cases Server.turned taken with
    | listen place opened | starve place opened | retry place opened =>
      cases requested.symm.trans opened
    | create place busy moved | destroy place busy moved =>
      have lower := apart.pool_falls positive _ rfl moved
      simp only [left]
      omega
    | created place | stop place | refuse place | accept place | drop place | destroyed place
    | drained place | close place =>
      simp only [left, place, MainPlace.left]
      omega
    | enqueue place live called =>
      simp only [left, place, MainPlace.left, List.length_append, List.length_singleton]
      omega
    | @drain q r req place live turn =>
      obtain ⟨items, contents, draining, _⟩ := apart.held q live
      cases items with
      | nil => cases draining.turn_empty.symm.trans turn
      | cons first items =>
        have lengths := congrArg List.length contents
        simp only [List.length_append, List.length_cons] at lengths
        simp only [left, place, MainPlace.left, List.length_append, List.length_singleton]
        omega

/-- A spurious wake-up makes more work. -/
theorem Stopping.rises (stopping : Stopping numThreads server) (free : label.own = false)
    (taken : Server.step numThreads server label = some next) :
    next.left numThreads ≤ server.left numThreads + 6 := by
  cases label with
  | main | worker => cases free
  | sigint =>
    cases taken
    simp only [left]
    omega
  | spurious i =>
    obtain ⟨pool, moved, rfl⟩ := poolStep_some taken
    have more := stopping.apart.ok.work_rises (Pool.stepped moved).2 rfl
    simp only [left]
    omega

theorem variant (positive : 0 < numThreads) {chosen : Label → Bool}
    (owned : ∀ label, chosen label = true → label.own = true) :
    Variant (Server.step numThreads) (Stopping numThreads) chosen (left numThreads) 6 where
  kept := fun stopping taken => stopping.step positive taken
  falls := fun stopping own taken => stopping.falls positive (owned _ own) taken
  rises := by
    intro server label next stopping _ taken
    cases own : label.own with
    | true => exact (stopping.falls positive own taken).le.trans (Nat.le_add_right _ _)
    | false => exact stopping.rises own taken

/-- SIGINT changes nothing any more, so its labels can be left out. -/
theorem Stopping.uninterrupted (stopping : Stopping numThreads server) (positive : 0 < numThreads)
    {labels : List Label} (ran : run (Server.step numThreads) server labels = some final) :
    run (Server.step numThreads) server
      (labels.filter fun label => label.own || label.wakes) = some final := by
  have unguarded : ∀ state label,
      Visits (Server.step numThreads) server labels state label → True := fun _ _ _ => trivial
  have erased : ∃ ended, run (Server.step numThreads) server
      (labels.filter fun label => label.own || label.wakes) = some ended ∧
        final = ended ∧ Stopping numThreads final := by
    refine run_erased (fun state other => state = other ∧ Stopping numThreads state) ?_ ?_
      ⟨rfl, stopping⟩ unguarded ran
    · rintro state _ label next ⟨rfl, now⟩ _ taken
      exact ⟨next, taken, rfl, now.step positive taken⟩
    · rintro state _ label next ⟨rfl, now⟩ dropped _ taken
      cases label with
      | main | worker | spurious => cases dropped
      | sigint =>
        have same : next = state := by
          cases taken
          simp [← now.requested]
        exact ⟨same, same ▸ now⟩
  obtain ⟨_, ran, rfl, _⟩ := erased
  exact ran

/-- The steps that a proxy takes once it is to shut down. -/
theorem Stopping.steps (stopping : Stopping numThreads server) (positive : 0 < numThreads)
    {labels : List Label} (ran : run (Server.step numThreads) server labels = some final) :
    labels.countP Label.own ≤ server.left numThreads + 6 * labels.countP Label.wakes := by
  have paid := (variant positive fun _ own => own).count_own stopping
    (stopping.uninterrupted positive ran)
  rw [List.countP_filter, List.countP_filter] at paid
  have steps : labels.countP (fun label => label.own && (label.own || label.wakes)) =
      labels.countP Label.own := by
    refine List.countP_congr fun label _ => ?_
    cases label <;> simp [Label.own]
  have wakings : labels.countP (fun label => !label.own && (label.own || label.wakes)) =
      labels.countP Label.wakes := by
    refine List.countP_congr fun label _ => ?_
    cases label <;> simp [Label.own, Label.wakes]
  omega

/-- Until the pool is destroyed its owner can move, or a worker can. -/
theorem Apart.pool_moves (apart : Apart numThreads server) (busy : server.pool.main ≠ .returned) :
    (∃ node next, poolStep numThreads server (.main node) = some next) ∨
      ∃ i next, Server.step numThreads server (.worker i) = some next := by
  obtain ⟨label, pool, thread, moved⟩ := apart.ok.not_stuck apart.routes.plain busy
  cases label with
  | main node => exact .inl ⟨node, { server with pool }, by simp [poolStep, moved]⟩
  | worker i => exact .inr ⟨i, { server with pool }, by simp [Server.step, poolStep, moved]⟩
  | spurious | nestedAdd | nestedEnqueue => exact thread.elim

/-- `request_queue` is there as long as `main` uses it. -/
theorem Paced.live (paced : Paced server)
    (used : ¬(server.place = .closing ∨ server.place = .returned)) :
    ∃ q, server.requestQueue = some q := by
  cases found : server.requestQueue with
  | none => exact absurd (paced.queue found) used
  | some q => exact ⟨q, rfl⟩

theorem Stopping.moves (stopping : Stopping numThreads server)
    (busy : server.place ≠ .returned) (accepted : Int) :
    ∃ label next, label.ownWith accepted = true ∧
      Server.step numThreads server label = some next := by
  obtain ⟨apart, paced, requested⟩ := stopping
  suffices moves : (∃ node next, mainStep numThreads server ⟨true, accepted, node⟩ = some next) ∨
      ∃ i next, Server.step numThreads server (.worker i) = some next by
    rcases moves with ⟨node, next, taken⟩ | ⟨i, next, taken⟩
    · exact ⟨.main ⟨true, accepted, node⟩, next, by simp [Label.ownWith], taken⟩
    · exact ⟨.worker i, next, rfl, taken⟩
  cases place : server.place with
  | initializing =>
    rcases paced.starting place with ⟨i, creating⟩ | adding
    · rcases apart.pool_moves (by simp [creating]) with ⟨node, next, taken⟩ | worker
      · exact .inl ⟨node, next, by simpa [mainStep, place, creating] using taken⟩
      · exact .inr worker
    · exact .inl ⟨0, by simp [mainStep, place, adding]⟩
  | listening => exact .inl ⟨0, by simp [mainStep, place, requested]⟩
  | accepting =>
    by_cases fails : accepted = -1 <;> exact .inl ⟨0, by simp [mainStep, place, requested, fails]⟩
  | enqueueing req =>
    obtain ⟨q, live⟩ := paced.live (by simp [place])
    obtain ⟨items, _, _, settled⟩ := apart.held q live
    obtain ⟨node, r, accepted, ran⟩ := (settled (by simp [place])).1.enqueue_enabled req
    exact .inl ⟨node, by simp [mainStep, place, live, ran]⟩
  | destroying =>
    by_cases ended : server.pool.main = .returned
    · exact .inl ⟨0, by simp [mainStep, place, ended]⟩
    · rcases apart.pool_moves ended with ⟨node, next, taken⟩ | worker
      · refine .inl ⟨node, next, ?_⟩
        simp only [mainStep, place]
        exact taken
      · exact .inr worker
  | draining =>
    obtain ⟨q, live⟩ := paced.live (by simp [place])
    obtain ⟨items, _, draining, _⟩ := apart.held q live
    refine .inl ⟨0, ?_⟩
    cases items with
    | nil => simp [mainStep, place, live, draining.turn_empty]
    | cons first items =>
      obtain ⟨r, turn, _⟩ := draining.turn
      simp [mainStep, place, live, turn]
  | closing => exact .inl ⟨0, by simp [mainStep, place]⟩
  | returned => exact absurd place busy

/-- A call of `accept` that has begun. -/
def allowance (server : Server) : Nat :=
  match server.place with
  | .accepting => 1
  | _ => 0

/-- The calls of `accept` that have returned. -/
def countAccept (server : Server) (label : Label) (_ : Server) (calls : Nat) : Nat :=
  match server.place, label with
  | .accepting, .main _ => calls + 1
  | _, _ => calls

theorem Stopping.accepts (stopping : Stopping numThreads server)
    (taken : Server.step numThreads server label = some next) (calls : Nat) :
    countAccept server label next calls + next.allowance ≤ calls + server.allowance ∧
      next.requests + calls ≤ server.requests + countAccept server label next calls := by
  have requested := stopping.requested
  have others (idle : ∀ input, label ≠ .main input) :
      countAccept server label next calls = calls := by
    cases label with
    | main input => exact absurd rfl (idle input)
    | sigint | worker _ | spurious _ => cases place : server.place <;> simp [countAccept, place]
  cases label with
  | sigint =>
    cases taken
    rw [others (by simp)]
    exact ⟨le_rfl, le_rfl⟩
  | worker i | spurious i =>
    obtain ⟨pool, moved, rfl⟩ := poolStep_some taken
    rw [others (by simp)]
    exact ⟨le_rfl, le_rfl⟩
  | main input =>
    cases Server.turned taken with
    | listen place opened | starve place opened | retry place opened =>
      cases requested.symm.trans opened
    | created place | create place | stop place | enqueue place | destroyed place | destroy place
    | drain place | drained place | close place => simp [countAccept, allowance, place]
    | refuse place | accept place | drop place =>
      simp only [countAccept, allowance, place]
      omega

theorem Stopping.calls (stopping : Stopping numThreads server) (positive : 0 < numThreads)
    {labels : List Label} {count : Nat}
    (ran : run (recorded (Server.step numThreads) countAccept) (server, 0) labels =
      some (final, count)) :
    count ≤ 1 ∧ final.requests ≤ server.requests + count := by
  have counting : Invariant (recorded (Server.step numThreads) countAccept) (fun _ => True)
      (server, 0) (fun whole => Stopping numThreads whole.1 ∧
        whole.2 + whole.1.allowance ≤ server.allowance ∧
        whole.1.requests ≤ server.requests + whole.2) := by
    refine ⟨⟨stopping, by simp, le_rfl⟩, ?_⟩
    rintro ⟨state, calls⟩ label ⟨next, noted⟩ ⟨now, few, made⟩ _ taken
    have moved : Server.step numThreads state label = some next := (recorded_step taken).1
    have same : noted = countAccept state label next calls := (recorded_step taken).2
    subst same
    simp only at now few made
    obtain ⟨fewer, more⟩ := now.accepts moved calls
    exact ⟨now.step positive moved, fewer.trans few, by simp only; omega⟩
  obtain ⟨_, few, made⟩ := counting.run (fun _ _ => trivial) ran
  have small : server.allowance ≤ 1 := by
    unfold allowance
    split <;> omega
  simp only at few made
  exact ⟨by omega, made⟩

end Server

end RequestProxy.Proxy
