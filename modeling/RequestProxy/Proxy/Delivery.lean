import RequestProxy.Proxy.Progress
import RequestProxy.Proxy.Rewrite

namespace RequestProxy.Proxy

open LibC Transition

variable {asked : List (List UInt8)} {locals : Locals} {host service message : List UInt8}

private theorem handled_buffer (handled : handleClientRequest asked locals =
      .ok (.handled host service sent)) :
    ∃ buffer, receiveClientRequest asked = .ok (some buffer) ∧
      handleBuffer buffer locals = .ok (.handled host service sent) := by
  obtain ⟨result, received⟩ := receiveClientRequest_ok asked
  rw [handleClientRequest, received, ok_bind] at handled
  cases result with
  | none => cases handled
  | some buffer => exact ⟨buffer, received, handled⟩

namespace ProxiedRequest

variable (request : ProxiedRequest)

theorem bytes_nonempty : request.bytes ≠ [] := by simp [RequestParts.bytes, ascii]

private theorem portValue_small : request.portValue < 10 ^ (4 + 1) := by
  rw [RequestParts.portValue]
  split
  · rename_i numeral _
    have := numeral.small
    omega
  · decide

/-- What `handle_client_request` does with a well-formed request that arrives in
one segment, whatever its arrays held. -/
theorem handled (more : List (List UInt8)) (locals : Locals) :
    handleClientRequest (request.bytes :: more) locals =
      .ok (.handled request.host (decimalText request.portValue) (some request.rewritten)) := by
  obtain ⟨buffer, received, holds⟩ := receiveClientRequest_eq request.bytes_clean
    request.bytes_nonempty (Nat.lt_succ_of_le request.length) more
  obtain ⟨port, named, value⟩ := request.target
  have decided : Decided (firstWords 3 request.bytes) := by
    rw [request.words]
    exact ⟨request.url, rfl, fun _ => rfl⟩
  have service : (decimalText port.toInt).take 5 = decimalText request.portValue := by
    rw [value, List.take_of_length_le (decimalText_length _ request.portValue_small)]
  have message : (forwardedLine request.method request.url request.protocol ++ ascii "\r\n" ++
      afterLine request.bytes).take (bufferSize - 1) = request.rewritten := by
    have room := request.tokens.room request.rest request.url_http holds.length_lt
    have after : afterLine request.bytes = request.rest :=
      request.tokens.afterLine_eq request.rest
    rw [List.take_of_length_le, forwardedLine, request.forwarded_path, after]
    · rfl
    · rw [List.length_append, List.length_append, ending_length]
      exact Nat.le_sub_one_of_lt room
  rw [handle_received received, handle_decided holds request.fits decided, request.words]
  simp only [decision, List.getElem?_cons_zero, List.getElem?_cons_succ, Option.getD_some, named,
    service, message]

end ProxiedRequest

variable {connection : Connection} {traffic : Traffic} {answer : List (List UInt8)}

/-- The steps by which a handler gets a request to its target, the answer of the
target, and the steps by which the handler passes it on, when no call fails and
each `send` takes all it is given. -/
def serving (steps : Nat) (answer : List (List UInt8)) (count : Nat) : List Event :=
  List.replicate steps (.handler .whole) ++ (answer.map .targetSends ++ [.targetCloses]) ++
    List.replicate count (.handler .whole)

namespace Connection

private theorem connecting_serves (place : connection.place = .connecting buffer parsed)
    (connects : connectToTargetServer parsed.hostname parsed.port connection.locals.portStr =
      .ok (host, service))
    (forwards : forwardRequest buffer connection.locals.forwarded
      connection.locals.modifiedRequest = .ok (some message)) :
    run advance connection (List.replicate 2 (.handler .whole)) =
      some { connection with target := ⟨[], false, message⟩, place := .relaying } := by
  have contacts : connection.advance (.handler .whole) =
      some { connection with target := .fresh, place := .forwarding buffer } := by
    simp only [advance, step, handle, place, connects, Results.whole, if_true]
  have sends : advance { connection with target := .fresh, place := .forwarding buffer }
      (.handler .whole) =
        some { connection with target := ⟨[], false, message⟩, place := .relaying } := by
    simp only [advance, step, handle, forwards]
    rfl
  simp only [List.replicate, run_cons, contacts, sends, Option.bind_some, run_nil]

private theorem parsing_serves (place : connection.place = .parsing buffer)
    (handled : handleBuffer buffer connection.locals =
      .ok (.handled host service (some message))) :
    run advance connection (List.replicate 3 (.handler .whole)) =
      some { connection with target := ⟨[], false, message⟩, place := .relaying } := by
  obtain ⟨parsed, parses, accepted, connects, forwards⟩ := handleBuffer_handled handled
  have reads : connection.advance (.handler .whole) =
      some { connection with place := .connecting buffer parsed } := by
    simp only [advance, step, handle, place, parses, accepted, if_true]
  rw [List.replicate_succ, run_cons, reads, Option.bind_some]
  exact connecting_serves rfl connects forwards

theorem answers (connection : Connection) (message : List UInt8) (solid : [] ∉ answer)
    (inbox : List (List UInt8)) :
    run advance { connection with target := ⟨inbox, false, message⟩ }
      (answer.map .targetSends ++ [.targetCloses]) =
        some { connection with target := ⟨inbox ++ answer, true, message⟩ } := by
  induction answer generalizing inbox with
  | nil => simp [run_cons, advance, step, Peer.closes, Effect.ofPeer]
  | cons segment later ih =>
    rw [List.mem_cons, not_or] at solid
    have sent : advance { connection with target := ⟨inbox, false, message⟩ }
        (.targetSends segment) =
          some { connection with target := ⟨inbox ++ [segment], false, message⟩ } := by
      simp [advance, step, Peer.sends, Effect.ofPeer, Ne.symm solid.1]
    rw [List.map_cons, List.cons_append, run_cons, sent, Option.bind_some, ih solid.2]
    simp

end Connection

namespace Carries

/-- A handler whose request is forwarded sends it to the target by its own steps,
wherever it is before it connects. -/
theorem forwards (carries : Carries connection traffic)
    (handled : handleClientRequest traffic.asked connection.locals =
      .ok (.handled host service (some message)))
    (early : connection.place.Unconnected) :
    ∃ steps client, steps ≤ 4 ∧ client.closed = connection.client.closed ∧
      client.delivered = [] ∧
      run Connection.advance connection (List.replicate steps (.handler .whole)) =
        some { connection with client, target := ⟨[], false, message⟩, place := .relaying } := by
  obtain ⟨buffer, received, served⟩ := handled_buffer handled
  have empty := (carries.idle (carries.unconnected early)).2.1
  cases place : connection.place with
  | receiving =>
    have arrived := carries.arriving place
    have ready : ¬connection.client.Waits := by
      intro waits
      exact receive_some received (arrived.symm.trans waits.1)
    exact ⟨4, connection.client.consume (bufferSize - 1), le_rfl, by simp, by simpa using empty,
      connection.serves place ready (arrived ▸ received) served⟩
  | parsing held =>
    have same := carries.buffered held (by rw [place]; rfl)
    cases same.symm.trans received
    exact ⟨3, connection.client, by decide, rfl, empty, Connection.parsing_serves place served⟩
  | connecting held parsed =>
    have same := carries.buffered held (by rw [place]; rfl)
    cases same.symm.trans received
    obtain ⟨other, parses, _, connects, sends⟩ := handleBuffer_handled served
    cases (carries.parsed _ _ place).1.symm.trans parses
    exact ⟨2, connection.client, by decide, rfl, empty,
      Connection.connecting_serves place connects sends⟩
  | forwarding _ | relaying | sending _ | closing | returned =>
    rw [place] at early
    exact early.elim

private theorem answering (handled : handleClientRequest asked connection.locals =
      .ok (.handled host service (some message)))
    (place : connection.place = .relaying) (empty : connection.client.delivered = [])
    (solid : [] ∉ answer) :
    Carries { connection with target := ⟨answer, true, message⟩ }
      ⟨asked, some ⟨host, service, answer.flatten, true, true, true⟩⟩ where
  solid := solid
  arriving := by simp [place]
  buffered := by simp [place, HandlerPlace.request]
  parsed := by simp [place]
  contacted := by
    rintro _ ⟨⟩
    obtain ⟨buffer, received, served⟩ := handled_buffer handled
    obtain ⟨parsed, parses, accepted, connects, _⟩ := handleBuffer_handled served
    exact ⟨buffer, received, parsed, parses, accepted, connects⟩
  unsent := by simp [place, HandlerPlace.Relays]
  sent := by
    rintro _ _ ⟨⟩
    exact ⟨some message, handled, List.prefix_rfl, fun _ => rfl⟩
  unconnected := by simp [place, HandlerPlace.Unconnected]
  idle := by simp
  answered := by
    rintro _ ⟨⟩
    exact ⟨[], by simp [place, HandlerPlace.held], by simp [empty], fun _ => empty⟩
  done := by simp [place, HandlerPlace.Done]

/-- A handler that is about to receive its request can do what the request asks
for: the target gets its message, and the client the answer. -/
theorem completes (carries : Carries connection traffic)
    (handled : handleClientRequest traffic.asked connection.locals =
      .ok (.handled host service (some message)))
    (early : connection.place.Unconnected) (clientOpen : connection.client.closed = false)
    (solid : [] ∉ answer) :
    ∃ (steps count : Nat) (final : Connection), steps ≤ 4 ∧
      count ≤ 2 * answer.flatten.length + 2 ∧
      run Connection.advance connection (serving steps answer count) = some final ∧
      final.place = .returned ∧ final.target.delivered = message ∧
      final.client.delivered = answer.flatten := by
  obtain ⟨steps, client, short, same, empty, sends⟩ := carries.forwards handled early
  let waiting : Connection := { connection with client, place := .relaying }
  have answering : Carries { waiting with target := ⟨answer, true, message⟩ }
      ⟨traffic.asked, some ⟨host, service, answer.flatten, true, true, true⟩⟩ :=
    Carries.answering handled rfl empty solid
  have draining : Draining message { waiting with target := ⟨answer, true, message⟩ } _ :=
    ⟨answering, trivial, rfl, rfl, same.trans clientOpen⟩
  obtain ⟨used, final, initial, bound, relays, returned, delivered, answered⟩ :=
    draining.returns rfl (List.replicate _ .whole) (List.length_replicate ..).ge
  have all : ∀ result ∈ used, result = .whole := fun result member =>
    List.eq_of_mem_replicate (initial.subset member)
  have flawless : Traffic.Flawless
      ⟨traffic.asked, some ⟨host, service, answer.flatten, true, true, true⟩⟩ := by
    rintro _ ⟨⟩
    exact ⟨rfl, rfl⟩
  refine ⟨steps, used.length, final, short, bound, ?_, returned, delivered,
    answered all flawless⟩
  rw [serving, run_append, run_append, sends, Option.bind_some]
  have answers := waiting.answers message solid []
  rw [answers, Option.bind_some]
  rw [List.eq_replicate_of_mem all, List.map_replicate] at relays
  exact relays

theorem named {exchange : Exchange} (carries : Carries connection traffic)
    (handled : handleClientRequest traffic.asked connection.locals =
      .ok (.handled host service (some message)))
    (noted : traffic.exchange = some exchange) :
    exchange.host = host ∧ exchange.service = service := by
  obtain ⟨buffer, received, served⟩ := handled_buffer handled
  obtain ⟨parsed, parses, _, connects, _⟩ := handleBuffer_handled served
  obtain ⟨other, again, reread, parsesAgain, _, contacts⟩ := carries.contacted exchange noted
  cases again.symm.trans received
  cases parsesAgain.symm.trans parses
  cases contacts.symm.trans connects
  exact ⟨rfl, rfl⟩

/-- The target gets a beginning of what `handle_client_request` sends, and all of it
when `send` took that. -/
theorem message_sent (carries : Carries connection traffic)
    (handled : handleClientRequest traffic.asked connection.locals =
      .ok (.handled host service (some message))) :
    connection.target.delivered <+: message ∧
      ∀ exchange, traffic.exchange = some exchange → connection.place.Relays →
        exchange.forwarded = true → connection.target.delivered = message := by
  have reached {exchange : Exchange} (noted : traffic.exchange = some exchange)
      (relays : connection.place.Relays) : connection.target.delivered <+: message ∧
        (exchange.forwarded = true → connection.target.delivered = message) := by
    obtain ⟨sent, again, delivered⟩ := carries.sent relays exchange noted
    cases again.symm.trans handled
    exact delivered
  refine ⟨?_, fun exchange noted relays => (reached noted relays).2⟩
  by_cases relays : connection.place.Relays
  · cases noted : traffic.exchange with
    | none => simp [(carries.idle noted).2.2]
    | some exchange => exact (reached noted relays).1
  · simp [carries.unsent relays]

end Carries

namespace ProxiedRequest

/-- A connection whose client has sent this request does nothing but serve it. -/
structure Serves (request : ProxiedRequest) (connection : Connection) (traffic : Traffic) :
    Prop where
  inside : ¬connection.Overruns
  named : ∀ exchange, traffic.exchange = some exchange →
    exchange.host = request.host ∧ exchange.service = decimalText request.portValue
  sent : connection.target.delivered <+: request.rewritten
  whole : ∀ exchange, traffic.exchange = some exchange → connection.place.Relays →
    exchange.forwarded = true → connection.target.delivered = request.rewritten

variable {ι : Type} [DecidableEq ι] {locals : ι → Locals} {process final : Process ι}

/-- In every run of the process, a well-formed request that came in one segment
makes its handler contact the host and the port it names, and nothing else; the
target gets the rewritten request as far as `send` takes it, and the handler leaves
no array. -/
theorem request_contacts (reached : run Process.step (.start locals) labels = some final) :
    ∃ traffic, run (recorded Process.step Process.note) (.start locals, fun _ => .start) labels =
        some (final, traffic) ∧
      ∀ client (request : ProxiedRequest) more,
        (traffic client).asked = request.bytes :: more →
        request.Serves (final.connections client) (traffic client) := by
  obtain ⟨traffic, ran⟩ := run_recorded Process.note reached fun _ => .start
  refine ⟨traffic, ran, fun client request more asked => ?_⟩
  have carries := ((carried_invariant locals).run (fun _ _ => trivial) ran client).2
  have handled := request.handled more (final.connections client).locals
  rw [← asked] at handled
  obtain ⟨sent, whole⟩ := carries.message_sent handled
  exact ⟨carries.inside handled, fun exchange noted => carries.named handled noted, sent, whole⟩

private theorem sample_sent : ∃ process : Process Unit,
    run Process.step (.start fun _ => Locals.clear) [((), .clientSends sample.bytes)] =
      some process ∧
    process.alive = true ∧ (process.connections ()).place = .receiving ∧
      (process.connections ()).client.closed = false ∧
      (process.connections ()).client.inbox = [sample.bytes] :=
  ⟨_, rfl, rfl, rfl, rfl, rfl⟩

/-- The handler has received and parsed the sample, connected, and forwarded it. -/
def forwarding : List (Unit × Event) :=
  (.clientSends sample.bytes :: List.replicate 4 (.handler .whole)).map fun event => ((), event)

theorem request_contacts_sample : ∃ (process : Process Unit) (traffic : Unit → Traffic) (more : _),
    run (recorded Process.step Process.note) (.start fun _ => Locals.clear, fun _ => .start)
      forwarding = some (process, traffic) ∧
    (traffic ()).asked = sample.bytes :: more ∧
    (process.connections ()).target.delivered = sample.rewritten ∧
    sample.Serves (process.connections ()) (traffic ()) := by
  obtain ⟨buffer, received, handled⟩ := handled_buffer (sample.handled [] Locals.clear)
  have served := Connection.serves ⟨⟨[sample.bytes], false, []⟩, .fresh, .receiving, Locals.clear⟩
    rfl (by simp [Peer.Waits]) received handled
  have sent : Connection.advance (.accepted Locals.clear) (.clientSends sample.bytes) =
      some ⟨⟨[sample.bytes], false, []⟩, .fresh, .receiving, Locals.clear⟩ := by
    simp [Connection.advance, Connection.step, Connection.accepted, Peer.sends, Peer.fresh,
      Effect.ofPeer, sample.bytes_nonempty]
  have reached : run Connection.advance (.accepted Locals.clear)
      (.clientSends sample.bytes :: List.replicate 4 (.handler .whole)) =
        some ⟨(⟨[sample.bytes], false, []⟩ : Peer).consume (bufferSize - 1),
          ⟨[], false, sample.rewritten⟩, .relaying, Locals.clear⟩ := by
    rw [run_cons, sent, Option.bind_some]
    exact served
  have ran := run_connection (.start fun _ : Unit => Locals.clear) () rfl reached
  obtain ⟨traffic, noted, serves⟩ := request_contacts ran
  obtain ⟨_, taken, continued⟩ := Option.bind_eq_some_iff.mp noted
  have first := run_asked continued ()
  cases taken
  obtain ⟨more, asked⟩ := first
  exact ⟨_, traffic, more, noted, asked.symm, by simp, serves () sample more asked.symm⟩

/-- From every reached state in which the handler of a client has not connected
yet, and the client has sent a well-formed request in one segment, that handler
and its target alone get the request to the target and the whole answer back, in
steps that only the answer's length bounds. -/
theorem request_answered (request : ProxiedRequest) {traffic : ι → Traffic} {client : ι}
    (reached : run (recorded Process.step Process.note) (.start locals, fun _ => .start) labels =
      some (process, traffic))
    (alive : process.alive = true) (asked : (traffic client).asked = request.bytes :: more)
    (early : (process.connections client).place.Unconnected)
    (clientOpen : (process.connections client).client.closed = false) (solid : [] ∉ answer) :
    ∃ (steps count : Nat) (final : Process ι), steps ≤ 4 ∧
      count ≤ 2 * answer.flatten.length + 2 ∧
      run Process.step process ((serving steps answer count).map fun event => (client, event)) =
        some final ∧
      (final.connections client).place = .returned ∧
      (final.connections client).target.delivered = request.rewritten ∧
      (final.connections client).client.delivered = answer.flatten := by
  have carries := ((carried_invariant locals).run (fun _ _ => trivial) reached client).2
  have handled := request.handled more (process.connections client).locals
  rw [← asked] at handled
  obtain ⟨steps, count, connection, short, bound, ran, returned, sent, answered⟩ :=
    carries.completes handled early clientOpen solid
  have whole := run_connection process client alive ran
  refine ⟨steps, count, _, short, bound, whole, ?_, ?_, ?_⟩
  · simpa using returned
  · simpa using sent
  · simpa using answered

theorem request_answered_sample : ∃ (process final : Process Unit) (steps count : Nat),
    run Process.step (.start fun _ => Locals.clear) [((), .clientSends sample.bytes)] =
      some process ∧
    run Process.step process ((serving steps [ascii "a", ascii "bc"] count).map
      fun event => ((), event)) = some final ∧
    (final.connections ()).target.delivered = sample.rewritten ∧
    (final.connections ()).client.delivered = ascii "abc" := by
  obtain ⟨process, reached, alive, place, opened, inbox⟩ := sample_sent
  obtain ⟨traffic, ran⟩ := run_recorded Process.note reached fun _ => .start
  have carries := ((carried_invariant _).run (fun _ _ => trivial) ran ()).2
  have asked : (traffic ()).asked = [sample.bytes] := (carries.arriving place).symm.trans inbox
  obtain ⟨steps, count, final, _, _, served, _, sent, answered⟩ :=
    request_answered sample ran alive asked (by rw [place]; trivial) opened
      (by decide : [] ∉ [ascii "a", ascii "bc"])
  exact ⟨process, final, steps, count, reached, served, sent, answered⟩

end ProxiedRequest

end RequestProxy.Proxy
