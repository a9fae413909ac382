import RequestProxy.Proxy.Decision
import RequestProxy.Proxy.Streams

namespace RequestProxy.Proxy

open LibC Transition

variable {connection next : Connection} {traffic : Traffic} {event : Event}

/-- The bytes that the target has sent since the handler connected to it. -/
def Traffic.answerLength (traffic : Traffic) : Nat :=
  match traffic.exchange with
  | some exchange => exchange.answered.length
  | none => 0

/-- The steps a handler can still take before its target has to send more. -/
def Connection.todo (connection : Connection) : Nat :=
  match connection.place with
  | .receiving => 6
  | .parsing _ => 5
  | .connecting _ _ => 4
  | .forwarding _ => 2 * connection.target.inbox.flatten.length + 3
  | .relaying => 2 * connection.target.inbox.flatten.length + 2
  | .sending _ => 2 * connection.target.inbox.flatten.length + 3
  | .closing => 1
  | .returned => 0

def Event.ofHandler : Event → Bool
  | .handler _ => true
  | .clientSends _ | .clientCloses | .targetSends _ | .targetCloses => false

/-- Each step of a handler leaves it less to do. -/
theorem Connection.todo_falls (moved : connection.handle results = .continues next) :
    next.todo < connection.todo := by
  cases advanced moved with
  | receive place | giveUp place | parse place | reject place | unreachable place | close place
  | forward place | skip place | finish place | breakOff place | pass place | drop place =>
    simp [todo, place]
  | connect place => simp [todo, place, Peer.fresh]
  | relay place more =>
    have taken := congrArg List.length (connection.target.consume_flatten bufferSize)
    rw [List.length_append] at taken
    have positive := List.length_pos_of_ne_nil more
    simp only [todo, place]
    omega

private theorem Carries.todo_step (carries : Carries connection traffic)
    (moved : connection.step event = .continues next) :
    (if event.ofHandler then 1 else 0) + next.todo + 2 * traffic.answerLength ≤
      connection.todo + 2 * (traffic.note connection event).answerLength := by
  cases event with
  | clientSends bytes | clientCloses =>
    obtain ⟨client, _, rfl⟩ := Effect.ofPeer_continues moved
    simp [Event.ofHandler, Connection.todo, Traffic.note, Traffic.answerLength]
  | targetCloses =>
    obtain ⟨target, closed, rfl⟩ := Effect.ofPeer_continues moved
    cases Peer.closes_eq closed
    simp [Event.ofHandler, Connection.todo, Traffic.note]
  | targetSends bytes =>
    obtain ⟨target, sent, rfl⟩ := Effect.ofPeer_continues moved
    obtain ⟨_, _, rfl⟩ := Peer.sends_eq sent
    cases noted : traffic.exchange with
    | none =>
      have idle := (carries.idle noted).1
      cases place : connection.place with
      | forwarding _ | relaying | sending _ | closing =>
        simp [place, HandlerPlace.Unconnected] at idle
      | receiving | parsing _ | connecting _ _ | returned =>
        simp [Event.ofHandler, Connection.todo, place, Traffic.note, Traffic.answerLength, noted]
    | some exchange =>
      cases place : connection.place with
      | receiving | parsing _ | connecting _ _ | closing | returned =>
        simp [Event.ofHandler, Connection.todo, place, Traffic.note, Traffic.answerLength, noted]
      | forwarding _ | relaying | sending _ =>
        simp [Event.ofHandler, Connection.todo, place, Traffic.note, Traffic.answerLength, noted]
        omega
  | handler results =>
    have falls := Connection.todo_falls moved
    have same : traffic.answerLength ≤
        (traffic.note connection (.handler results)).answerLength := by
      by_cases early : connection.place.Unconnected
      · simp [Traffic.answerLength, carries.unconnected early]
      · rw [traffic.note_handler]
        · cases noted : traffic.exchange <;> simp [Traffic.answerLength, noted]
        · intro buffer parsed place
          exact early (by rw [place]; trivial)
    simp only [Event.ofHandler, if_true]
    omega

/-- A handler in `forward_response` whose target has got these bytes and closed
the connection, and whose client has not. -/
structure Draining (message : List UInt8) (connection : Connection) (traffic : Traffic) :
    Prop where
  carries : Carries connection traffic
  relays : connection.place.Relays
  delivered : connection.target.delivered = message
  targetClosed : connection.target.closed = true
  clientOpen : connection.client.closed = false

namespace Draining

variable {message : List UInt8} {results : Results} {exchange : Exchange}

theorem step (draining : Draining message connection traffic)
    (moved : connection.handle results = .continues next) :
    Draining message next (traffic.note connection (.handler results)) := by
  have carries := draining.carries.handler moved
  obtain ⟨_, relays, delivered, targetClosed, clientOpen⟩ := draining
  cases Connection.advanced moved with
  | receive place | giveUp place | parse place | reject place | connect place | unreachable place
  | forward place | skip place =>
    rw [place] at relays
    exact relays.elim
  | finish | breakOff | drop | close =>
    exact ⟨carries, trivial, delivered, targetClosed, clientOpen⟩
  | relay place more =>
    exact ⟨carries, trivial, by simpa using delivered, by simpa using targetClosed, clientOpen⟩
  | pass place opened => exact ⟨carries, trivial, delivered, targetClosed, opened⟩

theorem moves (draining : Draining message connection traffic)
    (busy : connection.place ≠ .returned) (results : Results) :
    ∃ next, connection.handle results = .continues next := by
  obtain ⟨_, relays, _, targetClosed, clientOpen⟩ := draining
  cases place : connection.place with
  | receiving | parsing _ | connecting _ _ | forwarding _ =>
    rw [place] at relays
    exact relays.elim
  | relaying =>
    have ready : ¬connection.target.Waits := by simp [Peer.Waits, targetClosed]
    simp only [Connection.handle, place, if_neg ready]
    split
    · exact ⟨_, rfl⟩
    · split <;> exact ⟨_, rfl⟩
  | sending bytes =>
    simp only [Connection.handle, place, send, clientOpen]
    cases results.taking.taken bytes <;> exact ⟨_, rfl⟩
  | closing => exact ⟨_, by simp [Connection.handle, place]; rfl⟩
  | returned => exact absurd place busy

theorem noted (draining : Draining message connection traffic)
    (noted : traffic.exchange = some exchange) (results : Results) :
    ∃ later, (traffic.note connection (.handler results)).exchange = some later ∧
      later.answered = exchange.answered := by
  refine ⟨exchange.note connection results, ?_, Exchange.note_answered⟩
  rw [traffic.note_handler, noted, Option.map_some]
  intro buffer parsed place
  have relays := draining.relays
  rw [place] at relays
  exact relays.elim

theorem complete (draining : Draining message connection traffic)
    (connected : traffic.exchange = some exchange) (returned : connection.place = .returned)
    (flawless : traffic.Flawless) : connection.client.delivered = exchange.answered := by
  obtain ⟨passed, received⟩ := flawless exchange connected
  exact draining.carries.kept.complete exchange connected (.inr returned) passed received

/-- Such a handler returns by its own steps. When its calls do not fail, and did
not before, its client has the whole answer then. -/
theorem returns (draining : Draining message connection traffic)
    (connected : traffic.exchange = some exchange) (results : List Results)
    (enough : connection.todo ≤ results.length) :
    ∃ used final, used <+: results ∧ used.length ≤ connection.todo ∧
      run Connection.advance connection (used.map .handler) = some final ∧
      final.place = .returned ∧ final.target.delivered = message ∧
      ((∀ result ∈ used, result = .whole) → traffic.Flawless →
        final.client.delivered = exchange.answered) := by
  induction results generalizing connection traffic exchange with
  | nil =>
    have returned : connection.place = .returned := by
      have relays := draining.relays
      cases place : connection.place with
      | receiving | parsing _ | connecting _ _ | forwarding _ =>
        rw [place] at relays
        exact relays.elim
      | relaying | sending _ | closing => simp [Connection.todo, place] at enough
      | returned => rfl
    exact ⟨[], connection, List.prefix_rfl, Nat.zero_le _, rfl, returned, draining.delivered,
      fun _ => draining.complete connected returned⟩
  | cons result rest ih =>
    by_cases returned : connection.place = .returned
    · exact ⟨[], connection, List.nil_prefix, Nat.zero_le _, rfl, returned, draining.delivered,
        fun _ => draining.complete connected returned⟩
    · obtain ⟨next, moved⟩ := draining.moves returned result
      have fewer := Connection.todo_falls moved
      obtain ⟨later, still, same⟩ := draining.noted connected result
      obtain ⟨used, final, initial, short, ran, ended, delivered, whole⟩ :=
        ih (draining.step moved) still (by rw [List.length_cons] at enough; omega)
      refine ⟨result :: used, final, ?_, ?_, ?_, ended, delivered, fun flawless before => ?_⟩
      · exact (List.prefix_cons_inj result).mpr initial
      · rw [List.length_cons]
        omega
      · rw [List.map_cons, run_cons, Connection.advance, Connection.step, moved]
        exact ran
      · rw [← same]
        refine whole (fun other member => flawless other (by simp [member])) (before.note _ ?_)
        rintro _ ⟨⟩
        exact flawless result (by simp)

end Draining

/-- A handler leaves no array where `handle_client_request` does not. -/
theorem Carries.inside {outcome : Outcome} (carries : Carries connection traffic)
    (handled : handleClientRequest traffic.asked connection.locals = .ok outcome) :
    ¬connection.Overruns := by
  have held : ∀ {buffer}, connection.place.request = some buffer →
      handleBuffer buffer connection.locals = .ok outcome := by
    intro buffer holds
    rw [← handle_received (carries.buffered buffer holds)]
    exact handled
  intro overruns
  rw [Connection.Overruns] at overruns
  split at overruns
  · rename_i buffer place
    obtain ⟨fault, ran⟩ := overruns
    have served := held (by rw [place]; rfl)
    simp [handleBuffer, ran] at served
  · rename_i buffer parsed place
    obtain ⟨fault, ran⟩ := overruns
    obtain ⟨parses, accepted⟩ := carries.parsed _ _ place
    have served := held (by rw [place]; rfl)
    simp [handleBuffer, parses, accepted, ran] at served
  · rename_i buffer place
    obtain ⟨fault, ran⟩ := overruns
    have noted : traffic.exchange ≠ none := by
      intro none
      have idle := (carries.idle none).1
      simp [place, HandlerPlace.Unconnected] at idle
    obtain ⟨exchange, connected⟩ := Option.ne_none_iff_exists'.mp noted
    obtain ⟨other, received, parsed, parses, accepted, connects⟩ :=
      carries.contacted exchange connected
    have same := carries.buffered buffer (by rw [place]; rfl)
    cases same.symm.trans received
    have served := held (by rw [place]; rfl)
    simp [handleBuffer, parses, accepted, connects, ran] at served
  · exact overruns

/-- The first segment of a client, if there is one, can be read. -/
def Traffic.Readable (traffic : Traffic) : Prop :=
  ∀ segment more, traffic.asked = segment :: more →
    Fits (firstWords 3 (receivedText segment)) ∧ Decided (firstWords 3 (receivedText segment))

private theorem Carries.readable (carries : Carries connection traffic)
    (readable : traffic.Readable) :
    ¬connection.Overruns := by
  intro overruns
  obtain ⟨buffer, held⟩ : ∃ buffer, connection.place.request = some buffer := by
    rw [Connection.Overruns] at overruns
    cases place : connection.place with
    | parsing buffer | connecting buffer _ | forwarding buffer => exact ⟨buffer, rfl⟩
    | receiving | relaying | sending _ | closing | returned =>
      rw [place] at overruns
      exact overruns.elim
  have received := carries.buffered buffer held
  cases asked : traffic.asked with
  | nil => exact receive_some received asked
  | cons segment more =>
    have nonempty : segment ≠ [] := by
      rintro rfl
      rw [asked] at received
      cases received
    obtain ⟨fits, decided⟩ := readable segment more asked
    have handled := handle_segment nonempty fits decided more connection.locals
    rw [← asked] at handled
    exact carries.inside handled overruns

section Runs

variable {ι : Type} [DecidableEq ι] {locals : ι → Locals}
variable {before after : Process ι × (ι → Traffic)} {label : ι × Event}
variable {labels : List (ι × Event)}

private theorem step_alive (taken : recorded Process.step Process.note before label = some after)
    (alive : after.1.alive = true) : before.1.alive = true := by
  by_contra dead
  rw [Bool.not_eq_true] at dead
  have same := (recorded_step taken).1
  rw [Process.step_dead dead] at same
  rw [← Option.some.inj same, dead] at alive
  cases alive

private theorem run_alive
    (ran : run (recorded Process.step Process.note) before labels = some after)
    (alive : after.1.alive = true) : before.1.alive = true := by
  induction labels generalizing before with
  | nil => rw [Option.some.inj ran]; exact alive
  | cons label rest ih =>
    rw [run_cons] at ran
    obtain ⟨middle, taken, continued⟩ := Option.bind_eq_some_iff.mp ran
    exact step_alive taken (ih continued)

/-- Whose handler takes a step. -/
def ownStep (client : ι) (label : ι × Event) : Bool := label.1 = client && label.2.ofHandler

private theorem step_todo (carried : Carried locals before)
    (taken : recorded Process.step Process.note before label = some after)
    (alive : after.1.alive = true) (client : ι) :
    (if ownStep client label then 1 else 0) + (after.1.connections client).todo +
        2 * (before.2 client).answerLength ≤
      (before.1.connections client).todo + 2 * (after.2 client).answerLength := by
  obtain ⟨moved, noted⟩ := recorded_step taken
  rcases Process.step_cases moved (step_alive taken alive) with ⟨next, stepped, same⟩ | ⟨_, same⟩
  · rw [noted, Process.note, if_pos alive, same]
    by_cases own : label.1 = client
    · subst own
      simpa [ownStep] using (carried label.1).2.todo_step stepped
    · simp [ownStep, own, Function.update_of_ne (Ne.symm own)]
  · rw [same] at alive
    cases alive

private theorem run_todo (carried : Carried locals before)
    (ran : run (recorded Process.step Process.note) before labels = some after)
    (alive : after.1.alive = true) (client : ι) :
    labels.countP (ownStep client) + (after.1.connections client).todo +
        2 * (before.2 client).answerLength ≤
      (before.1.connections client).todo + 2 * (after.2 client).answerLength := by
  induction labels generalizing before with
  | nil =>
    rw [Option.some.inj ran]
    simp
  | cons label rest ih =>
    rw [run_cons] at ran
    obtain ⟨middle, taken, continued⟩ := Option.bind_eq_some_iff.mp ran
    have now := step_todo carried taken (run_alive continued alive) client
    have later := ih ((carried_invariant locals).preserved carried trivial taken) continued
    rw [List.countP_cons]
    omega

/-- In every run of the process, a handler takes at most six steps and two for
each byte that its target has sent, whatever the peers and the other handlers do. -/
theorem handlers_bounded {final : Process ι} {traffic : ι → Traffic}
    (reached : run (recorded Process.step Process.note) (.start locals, fun _ => .start) labels =
      some (final, traffic))
    (alive : final.alive = true) (client : ι) :
    labels.countP (ownStep client) + (final.connections client).todo ≤
      6 + 2 * (traffic client).answerLength :=
  run_todo (fun client => ⟨rfl, carries_accepted (locals client)⟩) reached alive client

/-- Once its target has closed the connection, the handler of a client that has not
returns by steps of its own alone, whatever its calls return. When its sends take
all they are given and no `recv` fails, and so it was before, it has passed on the
whole answer. -/
theorem response_completes {process : Process ι} {traffic : ι → Traffic} {client : ι}
    {exchange : Exchange}
    (reached : run (recorded Process.step Process.note) (.start locals, fun _ => .start) labels =
      some (process, traffic))
    (alive : process.alive = true) (connected : (traffic client).exchange = some exchange)
    (relays : (process.connections client).place.Relays)
    (targetClosed : (process.connections client).target.closed = true)
    (clientOpen : (process.connections client).client.closed = false) (results : List Results)
    (enough : (process.connections client).todo ≤ results.length) :
    ∃ (used : List Results) (final : Process ι), used <+: results ∧
      used.length ≤ (process.connections client).todo ∧
      run Process.step process (used.map fun result => (client, .handler result)) = some final ∧
      (final.connections client).place = .returned ∧
      ((∀ result ∈ used, result = .whole) → exchange.passed = true → exchange.received = true →
        (final.connections client).client.delivered = exchange.answered) := by
  have carries := ((carried_invariant locals).run (fun _ _ => trivial) reached client).2
  have draining : Draining _ (process.connections client) (traffic client) :=
    ⟨carries, relays, rfl, targetClosed, clientOpen⟩
  obtain ⟨used, connection, initial, short, ran, returned, _, answered⟩ :=
    draining.returns connected results enough
  have whole := run_connection process client alive ran
  rw [List.map_map] at whole
  refine ⟨used, _, initial, short, whole, by simpa using returned, fun flawless passed received => ?_⟩
  have before : (traffic client).Flawless := by
    intro other noted
    cases connected.symm.trans noted
    exact ⟨passed, received⟩
  simpa using answered flawless before

private theorem Traffic.note_asked (traffic : Traffic) (connection : Connection) (event : Event) :
    traffic.asked <+: (traffic.note connection event).asked := by
  cases event with
  | clientSends bytes => exact List.prefix_append _ _
  | clientCloses | targetSends bytes | targetCloses => exact List.prefix_rfl
  | handler results =>
    simp only [note, noteHandler]
    split
    · split
      · split <;> exact List.prefix_rfl
      · exact List.prefix_rfl
    · exact List.prefix_rfl

private theorem step_asked (taken : recorded Process.step Process.note before label = some after)
    (client : ι) : (before.2 client).asked <+: (after.2 client).asked := by
  rw [(recorded_step taken).2, Process.note]
  split
  · by_cases own : client = label.1
    · subst own
      simpa using Traffic.note_asked _ _ label.2
    · simp [own]
  · exact List.prefix_rfl

theorem run_asked (ran : run (recorded Process.step Process.note) before labels = some after)
    (client : ι) : (before.2 client).asked <+: (after.2 client).asked := by
  induction labels generalizing before with
  | nil => rw [Option.some.inj ran]
  | cons label rest ih =>
    rw [run_cons] at ran
    obtain ⟨middle, taken, continued⟩ := Option.bind_eq_some_iff.mp ran
    exact (step_asked taken client).trans (ih continued)

theorem Traffic.Readable.earlier {first second : Traffic} (readable : second.Readable)
    (grows : first.asked <+: second.asked) : first.Readable := by
  intro segment more asked
  obtain ⟨rest, whole⟩ := grows
  exact readable segment (more ++ rest) (by rw [← whole, asked, List.cons_append])

private theorem Connection.step_stays {connection next : Connection} {event : Event}
    (moved : connection.step event = .continues next)
    (stays : connection.client.closed = true → connection.place.Done)
    (leaves : event = .clientCloses → connection.place.Done) :
    next.client.closed = true → next.place.Done := by
  cases event with
  | clientSends bytes =>
    obtain ⟨client, sent, rfl⟩ := Effect.ofPeer_continues moved
    obtain ⟨_, _, rfl⟩ := Peer.sends_eq sent
    exact stays
  | clientCloses =>
    obtain ⟨client, closed, rfl⟩ := Effect.ofPeer_continues moved
    exact fun _ => leaves rfl
  | targetSends bytes | targetCloses =>
    obtain ⟨_, _, rfl⟩ := Effect.ofPeer_continues moved
    exact stays
  | handler results =>
    cases Connection.advanced moved with
    | receive place | giveUp place | parse place | reject place | connect place
    | unreachable place | forward place | skip place | finish place | breakOff place
    | relay place | pass place | drop place =>
      intro closed
      have done := stays (by simpa using closed)
      simp [HandlerPlace.Done, place] at done
    | close place => exact fun _ => .inr rfl

/-- The process is alive, and no client has closed its connection too early. -/
structure Sound (locals : ι → Locals) (recorded : Process ι × (ι → Traffic)) : Prop where
  carried : Carried locals recorded
  alive : recorded.1.alive = true
  stays : ∀ client, (recorded.1.connections client).client.closed = true →
    (recorded.1.connections client).place.Done

theorem Sound.step (now : Sound locals before)
    (leaves : label.2 = .clientCloses → (before.1.connections label.1).place.Done)
    (readable : ∀ client, (before.2 client).Readable)
    (taken : recorded Process.step Process.note before label = some after) :
    Sound locals after := by
  obtain ⟨carried, alive, stays⟩ := now
  have still := (carried_invariant locals).preserved carried trivial taken
  rcases Process.step_cases (recorded_step taken).1 alive with ⟨next, moved, same⟩ | ⟨ended, _⟩
  · refine ⟨still, by rw [same]; exact alive, fun client => ?_⟩
    rw [same]
    by_cases own : client = label.1
    · subst own
      simpa using Connection.step_stays moved (stays label.1) leaves
    · simpa [own] using stays client
  · obtain ⟨_, _, ⟨⟨bytes, sending⟩, closed⟩ | overruns⟩ :=
      (Connection.step_terminates_iff _ _).mp ended
    · have done := stays label.1 closed
      simp [HandlerPlace.Done, sending] at done
    · exact absurd overruns ((carried label.1).2.readable (readable label.1))

/-- In every run of the process in which every client's first segment can be read,
and no client closes its connection before its handler is past `forward_response`,
no handler ends the process. -/
theorem process_survives {final : Process ι} {traffic : ι → Traffic}
    (reached : run (recorded Process.step Process.note) (.start locals, fun _ => .start) labels =
      some (final, traffic))
    (leaves : ∀ state label, Visits (recorded Process.step Process.note)
      (.start locals, fun _ => .start) labels state label → label.2 = .clientCloses →
      (state.1.connections label.1).place.Done)
    (readable : ∀ client, (traffic client).Readable) : final.alive = true := by
  have initial : Sound locals (.start locals, fun _ => .start) :=
    ⟨(carried_invariant locals).initial, rfl, fun _ closed => by cases closed⟩
  have guarded : ∀ state label, Visits (recorded Process.step Process.note)
      (.start locals, fun _ => .start) labels state label →
      (label.2 = .clientCloses → (state.1.connections label.1).place.Done) ∧
        ∀ client, (state.2 client).Readable := by
    intro state label visited
    obtain ⟨next, later, taken, continued⟩ := visited.taken reached
    refine ⟨leaves state label visited, fun client => (readable client).earlier ?_⟩
    exact (step_asked taken client).trans (run_asked continued client)
  exact (run_guarded (Sound locals) initial
    (fun now allowed taken => now.step allowed.1 allowed.2 taken) guarded reached).alive

end Runs

/-- The target closes the connection while its byte is passed on. -/
theorem response_completes_sample : ∃ (process final : Process Unit) (traffic : Unit → Traffic)
    (exchange : Exchange) (used : List Results),
    run (recorded Process.step Process.note) (.start fun _ => Locals.clear, fun _ => .start)
      ((untilResponse ++ [Event.targetCloses]).map fun event => ((), event)) =
        some (process, traffic) ∧
    run Process.step process (used.map fun result => ((), .handler result)) = some final ∧
    (final.connections ()).place = .returned ∧
    (final.connections ()).client.delivered = exchange.answered := by
  obtain ⟨message, reached⟩ := response_reached
  have closed : run Connection.advance (.accepted Locals.clear) (untilResponse ++ [.targetCloses]) =
      some ⟨⟨[], false, []⟩, ⟨[], true, message⟩, .sending (ascii "x"), Locals.clear⟩ := by
    rw [run_append, reached]
    rfl
  have ran := run_connection (.start fun _ : Unit => Locals.clear) () rfl closed
  obtain ⟨traffic, noted⟩ := run_recorded Process.note ran fun _ => .start
  have carries := ((carried_invariant _).run (fun _ _ => trivial) noted ()).2
  have flawless := flawless_run () noted (by
    intro results member
    obtain ⟨event, inside, same⟩ := List.mem_map.mp member
    cases same
    simpa [untilResponse] using inside)
  cases connected : (traffic ()).exchange with
  | none =>
    have idle := (carries.idle connected).1
    simp [HandlerPlace.Unconnected] at idle
  | some exchange =>
    obtain ⟨passed, received⟩ := flawless exchange connected
    obtain ⟨used, final, initial, _, continued, returned, answered⟩ :=
      response_completes noted rfl connected (by simp [HandlerPlace.Relays]) (by simp) (by simp)
        (List.replicate 3 .whole) (by simp [Connection.todo])
    refine ⟨_, final, traffic, exchange, used, noted, continued, returned, ?_⟩
    exact answered (fun result member => List.eq_of_mem_replicate (initial.subset member)) passed
      received

theorem handlers_bounded_sample : ∃ (process : Process Unit) (traffic : Unit → Traffic),
    run (recorded Process.step Process.note) (.start fun _ => Locals.clear, fun _ => .start)
      (untilResponse.map fun event => ((), event)) = some (process, traffic) ∧
    (untilResponse.map fun event => ((), event)).countP (ownStep ()) +
      (process.connections ()).todo ≤ 6 + 2 * (traffic ()).answerLength := by
  obtain ⟨message, reached⟩ := response_reached
  have ran := run_connection (.start fun _ : Unit => Locals.clear) () rfl reached
  obtain ⟨traffic, noted⟩ := run_recorded Process.note ran fun _ => .start
  exact ⟨_, traffic, noted, handlers_bounded noted rfl ()⟩

/-- The request is answered, and its client closes the connection when the handler
has returned. -/
def wholeExchange : List Event :=
  untilResponse ++ [.handler .whole, .targetCloses, .handler .whole, .handler .whole] ++
    [.clientCloses]

theorem process_survives_sample : ∃ (process : Process Unit) (traffic : Unit → Traffic),
    run (recorded Process.step Process.note) (.start fun _ => Locals.clear, fun _ => .start)
      (wholeExchange.map fun event => ((), event)) = some (process, traffic) ∧
    (process.connections ()).client.closed = true ∧
    (process.connections ()).client.delivered = ascii "x" ∧ process.alive = true := by
  obtain ⟨message, reached⟩ := response_reached
  have served : run Connection.advance (.accepted Locals.clear) (untilResponse ++
      [.handler .whole, .targetCloses, .handler .whole, .handler .whole]) =
        some ⟨⟨[], false, ascii "x"⟩, ⟨[], true, message⟩, .returned, Locals.clear⟩ := by
    rw [run_append, reached]
    rfl
  have whole : run Connection.advance (.accepted Locals.clear) wholeExchange =
      some ⟨⟨[], true, ascii "x"⟩, ⟨[], true, message⟩, .returned, Locals.clear⟩ := by
    rw [wholeExchange, run_append, served]
    rfl
  have before := run_connection (.start fun _ : Unit => Locals.clear) () rfl served
  have ran := run_connection (.start fun _ : Unit => Locals.clear) () rfl whole
  obtain ⟨traffic, noted⟩ := run_recorded Process.note ran fun _ => .start
  refine ⟨_, traffic, noted, by simp, by simp, process_survives noted ?_ ?_⟩
  · intro state label visited closes
    rw [wholeExchange, List.map_append] at visited
    have earlier := visited.last (by
      intro member
      obtain ⟨event, inside, rfl⟩ := List.mem_map.mp member
      simp only at closes
      simp [closes, untilResponse] at inside)
    obtain ⟨_, known⟩ := run_recorded Process.note before fun _ => Traffic.start
    cases known.symm.trans earlier
    exact .inr (by simp)
  · intro client segment more asked
    obtain ⟨sent, taken, continued⟩ := Option.bind_eq_some_iff.mp noted
    have first := run_asked continued ()
    cases taken
    rw [asked] at first
    obtain ⟨_, same⟩ := first
    cases same
    have text : receivedText rootRequest = rootRequest := by decide
    have words : firstWords 3 rootRequest =
        [ascii "GET", ascii "http://h", ascii "HTTP/1.1"] := by decide
    rw [text, words]
    exact ⟨fits_three (by decide) (by decide) (by decide), _, rfl, fun _ => rfl⟩

end RequestProxy.Proxy
