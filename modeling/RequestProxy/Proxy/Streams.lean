import RequestProxy.Proxy.Isolation
import RequestProxy.Transition.Record

/-! The two streams that go through a handler. Any number of connections may be
handled at the same time, in any order of steps: no byte of a response is lost,
repeated, reordered or given to another client. -/

namespace RequestProxy.Proxy

open LibC Transition

/-- What a handler has to do with its target: the node and the service it has
connected to, and what the target has sent since then; whether `forward_request`
has sent all of its message, each `send` to the client took all it was given, and
no `recv` from the target has failed. -/
structure Exchange where
  host : List UInt8
  service : List UInt8
  answered : List UInt8
  forwarded : Bool
  passed : Bool
  received : Bool

namespace Exchange

def start (host service : List UInt8) : Exchange := ⟨host, service, [], true, true, true⟩

/-- How the calls in a handler's step have gone. -/
def note (exchange : Exchange) (connection : Connection) (results : Results) : Exchange :=
  match connection.place with
  | .forwarding _ => { exchange with
      forwarded := decide (results.taking = .whole) && !connection.target.closed }
  | .relaying => { exchange with received := exchange.received && results.receives }
  | .sending _ => { exchange with passed := exchange.passed && decide (results.taking = .whole) }
  | .receiving | .parsing _ | .connecting _ _ | .closing | .returned => exchange

variable {exchange : Exchange} {connection : Connection} {results : Results}

@[simp] theorem note_host : (exchange.note connection results).host = exchange.host := by
  unfold note
  split <;> rfl

@[simp] theorem note_service : (exchange.note connection results).service = exchange.service := by
  unfold note
  split <;> rfl

@[simp] theorem note_answered :
    (exchange.note connection results).answered = exchange.answered := by
  unfold note
  split <;> rfl

/-- The target has got a beginning of the message for the request, and all of it
where `send` took that. -/
def Reached (exchange : Exchange) (locals : Locals) (asked : List (List UInt8))
    (delivered : List UInt8) : Prop :=
  ∃ sent, handleClientRequest asked locals =
      .ok (.handled exchange.host exchange.service sent) ∧
    delivered <+: sent.getD [] ∧ (exchange.forwarded = true → delivered = sent.getD [])

/-- What the target has sent, up to the rest of it, was delivered in its order, and
all of it where `send` took that. -/
def Divides (exchange : Exchange) (delivered rest : List UInt8) : Prop :=
  ∃ taken, exchange.answered = taken ++ rest ∧ delivered.Sublist taken ∧
    (exchange.passed = true → delivered = taken)

/-- A part of the bytes that come next is delivered, and the rest of them is not. -/
theorem Divides.pass {later : Exchange} {part : List UInt8}
    (divides : exchange.Divides delivered (bytes ++ rest)) (sublist : part.Sublist bytes)
    (same : later.answered = exchange.answered)
    (whole : later.passed = true → exchange.passed = true ∧ part = bytes) :
    later.Divides (delivered ++ part) rest := by
  obtain ⟨taken, divided, ordered, all⟩ := divides
  refine ⟨taken ++ bytes, ?_, ordered.append sublist, fun passed => ?_⟩
  · rw [same, divided, List.append_assoc]
  · obtain ⟨before, now⟩ := whole passed
    rw [all before, now]

theorem Reached.note {locals : Locals} (reached : exchange.Reached locals asked delivered)
    (elsewhere : ∀ buffer, connection.place ≠ .forwarding buffer) :
    (exchange.note connection results).Reached locals asked delivered := by
  unfold Exchange.note
  split
  · rename_i buffer place
    exact absurd place (elsewhere buffer)
  all_goals exact reached

theorem Divides.note (divides : exchange.Divides delivered rest)
    (elsewhere : ∀ bytes, connection.place ≠ .sending bytes) :
    (exchange.note connection results).Divides delivered rest := by
  unfold Exchange.note
  split
  case h_3 bytes place => exact absurd place (elsewhere bytes)
  all_goals exact divides

end Exchange

/-- What has gone through a connection: the segments its client has sent, and the
exchange with the target. -/
structure Traffic where
  asked : List (List UInt8)
  exchange : Option Exchange

namespace Traffic

def start : Traffic := ⟨[], none⟩

/-- The traffic after a step of the handler. -/
def noteHandler (traffic : Traffic) (connection : Connection) (results : Results) : Traffic :=
  match connection.place with
  | .connecting _ parsed =>
    match connectToTargetServer parsed.hostname parsed.port connection.locals.portStr with
    | .ok (host, service) =>
      if results.connects then { traffic with exchange := some (.start host service) }
      else traffic
    | .error _ => traffic
  | _ => { traffic with
      exchange := traffic.exchange.map fun exchange => exchange.note connection results }

/-- The traffic after an event. -/
def note (traffic : Traffic) (connection : Connection) : Event → Traffic
  | .clientSends bytes => { traffic with asked := traffic.asked ++ [bytes] }
  | .targetSends bytes => { traffic with
      exchange := traffic.exchange.map fun exchange =>
        { exchange with answered := exchange.answered ++ bytes } }
  | .handler results => traffic.noteHandler connection results
  | .clientCloses | .targetCloses => traffic

/-- No other step of a handler connects. -/
theorem note_handler (traffic : Traffic) {connection : Connection} {results : Results}
    (elsewhere : ∀ buffer parsed, connection.place ≠ .connecting buffer parsed) :
    traffic.note connection (.handler results) = { traffic with
      exchange := traffic.exchange.map fun exchange => exchange.note connection results } := by
  rw [note, noteHandler]
  split
  · rename_i buffer parsed place
    exact absurd place (elsewhere buffer parsed)
  · rfl

private theorem note_early {traffic : Traffic} (none : traffic.exchange = none)
    {connection : Connection} {results : Results}
    (elsewhere : ∀ buffer parsed, connection.place ≠ .connecting buffer parsed) :
    traffic.note connection (.handler results) = traffic := by
  rw [traffic.note_handler elsewhere, none, Option.map_none, ← none]

end Traffic

/-- The traffic of all connections; a process that has ended has none. -/
def Process.note {ι : Type} [DecidableEq ι] (process : Process ι) (label : ι × Event)
    (next : Process ι) (traffic : ι → Traffic) : ι → Traffic :=
  if next.alive then Function.update traffic label.1
    ((traffic label.1).note (process.connections label.1) label.2)
  else traffic

namespace HandlerPlace

/-- The buffer that holds the request. -/
def request : HandlerPlace → Option (CharArray bufferSize)
  | .parsing buffer | .connecting buffer _ | .forwarding buffer => some buffer
  | .receiving | .relaying | .sending _ | .closing | .returned => none

/-- What was received from the target and not passed on. -/
def held : HandlerPlace → List UInt8
  | .sending bytes => bytes
  | .receiving | .parsing _ | .connecting _ _ | .forwarding _ | .relaying | .closing
  | .returned => []

/-- The handler has not connected to a target. -/
def Unconnected (place : HandlerPlace) : Prop :=
  match place with
  | .receiving | .parsing _ | .connecting _ _ => True
  | .forwarding _ | .relaying | .sending _ | .closing | .returned => False

def Relays (place : HandlerPlace) : Prop :=
  match place with
  | .relaying | .sending _ | .closing | .returned => True
  | .receiving | .parsing _ | .connecting _ _ | .forwarding _ => False

theorem Relays.request {place : HandlerPlace} (relays : place.Relays) : place.request = none := by
  cases place with
  | relaying | sending _ | closing | returned => rfl
  | receiving | parsing _ | connecting _ _ | forwarding _ => exact relays.elim

theorem Relays.connected {place : HandlerPlace} (relays : place.Relays) : ¬place.Unconnected := by
  cases place with
  | relaying | sending _ | closing | returned => exact id
  | receiving | parsing _ | connecting _ _ | forwarding _ => exact relays.elim

/-- The handler has left the loop of `forward_response`. -/
def Done (place : HandlerPlace) : Prop := place = .closing ∨ place = .returned

end HandlerPlace

/-- The request of a client goes to this target. -/
def Contacts (locals : Locals) (asked : List (List UInt8)) (buffer : CharArray bufferSize)
    (host service : List UInt8) : Prop :=
  receiveClientRequest asked = .ok (some buffer) ∧
    ∃ parsed, parseHttpRequest buffer locals.parsed locals.hostname = .ok parsed ∧
      parsed.accepted = true ∧
      connectToTargetServer parsed.hostname parsed.port locals.portStr = .ok (host, service)

namespace Taking

variable {taking : Taking} {bytes taken : List UInt8}

private theorem not_whole (took : taking.taken bytes = none) : taking ≠ .whole := by
  rintro rfl
  cases took

private theorem taken_prefix (took : taking.taken bytes = some taken) : taken <+: bytes := by
  cases taking with
  | whole => exact Option.some.inj took ▸ List.prefix_rfl
  | part more => exact Option.some.inj took ▸ List.take_prefix _ _
  | fails => cases took

private theorem taken_whole (took : taking.taken bytes = some taken) (whole : taking = .whole) :
    taken = bytes := by
  subst whole
  exact (Option.some.inj took).symm

end Taking

namespace Connection

variable {connection next : Connection} {results : Results}

/-- All a handler can do that does not end the process. -/
inductive Advanced (connection : Connection) (results : Results) : Connection → Prop where
  | receive (place : connection.place = .receiving) (ready : ¬connection.client.Waits)
      (received : receiveClientRequest connection.client.inbox = .ok (some buffer)) :
      Advanced connection results { connection with
        client := connection.client.consume (bufferSize - 1)
        place := .parsing buffer }
  | giveUp (place : connection.place = .receiving) :
      Advanced connection results { connection with place := .returned }
  | parse (place : connection.place = .parsing buffer)
      (ran : parseHttpRequest buffer connection.locals.parsed connection.locals.hostname =
        .ok parsed) (accepted : parsed.accepted = true) :
      Advanced connection results { connection with place := .connecting buffer parsed }
  | reject (place : connection.place = .parsing buffer) :
      Advanced connection results { connection with place := .returned }
  | connect (place : connection.place = .connecting buffer parsed)
      (ran : connectToTargetServer parsed.hostname parsed.port connection.locals.portStr =
        .ok named) (succeeds : results.connects = true) :
      Advanced connection results { connection with target := .fresh, place := .forwarding buffer }
  | unreachable (place : connection.place = .connecting buffer parsed)
      (fails : results.connects = false) :
      Advanced connection results { connection with place := .returned }
  | forward (place : connection.place = .forwarding buffer)
      (ran : forwardRequest buffer connection.locals.forwarded connection.locals.modifiedRequest =
        .ok (some message)) (took : results.taking.taken message = some taken) :
      Advanced connection results { connection with
        target := { connection.target with delivered := connection.target.delivered ++ taken }
        place := .relaying }
  | skip (place : connection.place = .forwarding buffer)
      (ran : forwardRequest buffer connection.locals.forwarded connection.locals.modifiedRequest =
        .ok sent)
      (lost : sent = none ∨ connection.target.closed = true ∨ results.taking ≠ .whole) :
      Advanced connection results { connection with place := .relaying }
  | finish (place : connection.place = .relaying) (ready : ¬connection.target.Waits)
      (ended : recv connection.target.inbox bufferSize = []) :
      Advanced connection results { connection with place := .closing }
  | breakOff (place : connection.place = .relaying) (fails : results.receives = false) :
      Advanced connection results { connection with place := .closing }
  | relay (place : connection.place = .relaying)
      (more : recv connection.target.inbox bufferSize ≠ []) :
      Advanced connection results { connection with
        target := connection.target.consume bufferSize
        place := .sending (recv connection.target.inbox bufferSize) }
  | pass (place : connection.place = .sending bytes) (opened : connection.client.closed = false)
      (took : results.taking.taken bytes = some taken) :
      Advanced connection results { connection with
        client := { connection.client with delivered := connection.client.delivered ++ taken }
        place := .relaying }
  | drop (place : connection.place = .sending bytes) (fails : results.taking ≠ .whole) :
      Advanced connection results { connection with place := .closing }
  | close (place : connection.place = .closing) :
      Advanced connection results { connection with place := .returned }

theorem advanced (moved : connection.handle results = .continues next) :
    Advanced connection results next := by
  unfold handle at moved
  split at moved
  · rename_i place
    split at moved
    · cases moved
      exact .giveUp place
    · split at moved
      · cases moved
      · rename_i ready
        split at moved
        · rename_i received
          cases moved
          exact .receive place ready received
        · cases moved
          exact .giveUp place
        · cases moved
  · rename_i place
    split at moved
    · rename_i ran
      split at moved
      · rename_i accepted
        cases moved
        exact .parse place ran accepted
      · cases moved
        exact .reject place
    · cases moved
  · rename_i place
    split at moved
    · rename_i ran
      cases result : results.connects with
      | true =>
        rw [if_pos result] at moved
        cases moved
        exact .connect place ran result
      | false =>
        rw [if_neg (by simp [result])] at moved
        cases moved
        exact .unreachable place result
    · cases moved
  · rename_i place
    split at moved
    · rename_i message ran
      by_cases closed : connection.target.closed = true
      · simp only [send, if_pos closed] at moved
        cases moved
        exact .skip place ran (.inr (.inl closed))
      · simp only [send, if_neg closed] at moved
        cases took : results.taking.taken message with
        | some taken =>
          rw [took] at moved
          cases moved
          exact .forward place ran took
        | none =>
          rw [took] at moved
          cases moved
          exact .skip place ran (.inr (.inr (Taking.not_whole took)))
    · rename_i ran
      cases moved
      exact .skip place ran (.inl rfl)
    · cases moved
  · rename_i place
    split at moved
    · rename_i fails
      cases moved
      exact .breakOff place fails
    · split at moved
      · cases moved
      · rename_i ready
        dsimp only at moved
        split at moved
        · rename_i ended
          cases moved
          exact .finish place ready ended
        · rename_i more
          cases moved
          exact .relay place more
  · rename_i bytes place
    by_cases closed : connection.client.closed = true
    · simp [send, closed, disposition] at moved
    · simp only [send, if_neg closed] at moved
      cases took : results.taking.taken bytes with
      | some taken =>
        rw [took] at moved
        cases moved
        exact .pass place (Bool.eq_false_iff.mpr closed) took
      | none =>
        rw [took] at moved
        cases moved
        exact .drop place (Taking.not_whole took)
  · rename_i place
    cases moved
    exact .close place
  · cases moved

end Connection

theorem Effect.ofPeer_continues {peer : Option Peer} {store : Peer → Connection}
    (moved : Effect.ofPeer peer store = .continues next) :
    ∃ after, peer = some after ∧ next = store after := by
  cases peer with
  | none => cases moved
  | some after =>
    cases moved
    exact ⟨after, rfl, rfl⟩

namespace Peer

variable {peer after : Peer} {bytes : List UInt8} {count : Nat}

theorem sends_eq (sent : peer.sends bytes = some after) :
    peer.closed = false ∧ bytes ≠ [] ∧ after = { peer with inbox := peer.inbox ++ [bytes] } := by
  unfold sends at sent
  split at sent
  · cases sent
  · rename_i allowed
    obtain ⟨opened, nonempty⟩ := not_or.mp allowed
    exact ⟨Bool.eq_false_iff.mpr opened, nonempty, (Option.some.inj sent).symm⟩

theorem closes_eq (closed : peer.closes = some after) : after = { peer with closed := true } := by
  unfold closes at closed
  split at closed
  · cases closed
  · exact (Option.some.inj closed).symm

theorem consume_flatten (peer : Peer) (count : Nat) :
    recv peer.inbox count ++ (peer.consume count).inbox.flatten = peer.inbox.flatten := by
  unfold consume recv
  split
  · rename_i empty
    simp [empty]
  · rename_i segment later some
    split
    · rename_i whole
      simp [some, List.take_of_length_le whole]
    · simp [some, ← List.append_assoc]

private theorem consume_solid (solid : [] ∉ peer.inbox) : [] ∉ (peer.consume count).inbox := by
  unfold consume
  split
  · exact solid
  · rename_i segment later some
    rw [some, List.mem_cons, not_or] at solid
    split
    · exact solid.2
    · rename_i long
      rw [List.mem_cons, not_or]
      refine ⟨fun empty => long ?_, solid.2⟩
      exact List.drop_eq_nil_iff.mp empty.symm

@[simp] theorem consume_closed : (peer.consume count).closed = peer.closed := by
  unfold consume
  split
  · rfl
  · split <;> rfl

@[simp] theorem consume_delivered : (peer.consume count).delivered = peer.delivered := by
  unfold consume
  split
  · rfl
  · split <;> rfl

/-- A stream without empty segments ends only where it is empty. -/
theorem recv_empty (solid : [] ∉ peer.inbox) (positive : 0 < count)
    (ended : recv peer.inbox count = []) : peer.inbox = [] := by
  cases segments : peer.inbox with
  | nil => rfl
  | cons segment later =>
    rw [recv, segments, List.headD_cons, List.take_eq_nil_iff] at ended
    rcases ended with zero | empty
    · omega
    · exact absurd (by simp [segments, empty]) solid

end Peer

variable {asked : List (List UInt8)} {buffer : CharArray bufferSize} {locals : Locals}
variable {host service delivered : List UInt8}

/-- The handler looks at no more of its client's stream than the first segment. -/
theorem receive_append (some : asked ≠ []) (more : List (List UInt8)) :
    receiveClientRequest (asked ++ more) = receiveClientRequest asked := by
  have same : recv (asked ++ more) (bufferSize - 1) = recv asked (bufferSize - 1) := by
    cases asked with
    | nil => exact absurd rfl some
    | cons segment later => rfl
  rw [receiveClientRequest, same, receiveClientRequest]

theorem receive_some (received : receiveClientRequest asked = .ok (some buffer)) : asked ≠ [] := by
  rintro rfl
  cases received

private theorem received_append (received : receiveClientRequest asked = .ok (some buffer))
    (more : List (List UInt8)) :
    receiveClientRequest (asked ++ more) = .ok (some buffer) :=
  (receive_append (receive_some received) more).trans received

theorem handled_append (handled : handleClientRequest asked locals =
      .ok (.handled host service sent)) (more : List (List UInt8)) :
    handleClientRequest (asked ++ more) locals = .ok (.handled host service sent) := by
  have some : asked ≠ [] := by
    rintro rfl
    cases handled
  rw [handleClientRequest, receive_append some]
  exact handled

theorem Contacts.append (contacts : Contacts locals asked buffer host service)
    (more : List (List UInt8)) : Contacts locals (asked ++ more) buffer host service :=
  ⟨received_append contacts.1 more, contacts.2⟩

/-- What a handler that has contacted its target sends to it is what
`handle_client_request` sends for the same request on its own. -/
theorem Contacts.handled (contacts : Contacts locals asked buffer host service)
    (ran : forwardRequest buffer locals.forwarded locals.modifiedRequest = .ok sent) :
    handleClientRequest asked locals = .ok (.handled host service sent) := by
  obtain ⟨received, parsed, parses, accepted, connects⟩ := contacts
  rw [handleClientRequest, received, ok_bind]
  simp only [handleBuffer, parses, accepted, connects, ran, ok_bind, if_true]
  rfl

/-- How the state of a connection and its traffic belong together. -/
structure Carries (connection : Connection) (traffic : Traffic) : Prop where
  solid : [] ∉ connection.target.inbox
  arriving : connection.place = .receiving → connection.client.inbox = traffic.asked
  buffered : ∀ buffer, connection.place.request = some buffer →
    receiveClientRequest traffic.asked = .ok (some buffer)
  parsed : ∀ buffer parsed, connection.place = .connecting buffer parsed →
    parseHttpRequest buffer connection.locals.parsed connection.locals.hostname = .ok parsed ∧
      parsed.accepted = true
  contacted : ∀ exchange, traffic.exchange = some exchange → ∃ buffer,
    Contacts connection.locals traffic.asked buffer exchange.host exchange.service
  unsent : ¬connection.place.Relays → connection.target.delivered = []
  sent : connection.place.Relays → ∀ exchange, traffic.exchange = some exchange →
    exchange.Reached connection.locals traffic.asked connection.target.delivered
  unconnected : connection.place.Unconnected → traffic.exchange = none
  idle : traffic.exchange = none →
    (connection.place.Unconnected ∨ connection.place = .returned) ∧
      connection.client.delivered = [] ∧ connection.target.delivered = []
  answered : ∀ exchange, traffic.exchange = some exchange →
    exchange.Divides connection.client.delivered
      (connection.place.held ++ connection.target.inbox.flatten)
  done : connection.place.Done → ∀ exchange, traffic.exchange = some exchange →
    exchange.passed = true → exchange.received = true →
    connection.target.inbox = [] ∧ connection.target.closed = true

theorem carries_accepted (locals : Locals) : Carries (.accepted locals) .start where
  solid := by simp [Connection.accepted, Peer.fresh]
  arriving := fun _ => rfl
  buffered := by simp [Connection.accepted, HandlerPlace.request]
  parsed := by simp [Connection.accepted]
  contacted := by simp [Traffic.start]
  unsent := fun _ => rfl
  sent := by simp [Traffic.start]
  unconnected := fun _ => rfl
  idle := fun _ => ⟨.inl trivial, rfl, rfl⟩
  answered := by simp [Traffic.start]
  done := by simp [Traffic.start]

namespace Carries

variable {connection next : Connection} {traffic : Traffic} {results : Results}

theorem clientSends (carries : Carries connection traffic)
    (sent : connection.client.sends bytes = some client) :
    Carries { connection with client } { traffic with asked := traffic.asked ++ [bytes] } := by
  obtain ⟨_, _, rfl⟩ := Peer.sends_eq sent
  refine { carries with arriving := ?_, buffered := ?_, contacted := ?_, sent := ?_ }
  · intro place
    rw [carries.arriving place]
  · intro buffer holds
    exact received_append (carries.buffered buffer holds) [bytes]
  · intro exchange noted
    obtain ⟨buffer, contacts⟩ := carries.contacted exchange noted
    exact ⟨buffer, contacts.append [bytes]⟩
  · intro relays exchange noted
    obtain ⟨message, handled, delivered⟩ := carries.sent relays exchange noted
    exact ⟨message, handled_append handled [bytes], delivered⟩

/-- More bytes from the target, which has not closed the connection. -/
theorem targetSends (carries : Carries connection traffic)
    (sent : connection.target.sends bytes = some target) :
    Carries { connection with target } { traffic with
      exchange := traffic.exchange.map fun exchange =>
        { exchange with answered := exchange.answered ++ bytes } } := by
  obtain ⟨opened, nonempty, rfl⟩ := Peer.sends_eq sent
  have outside : [] ∉ connection.target.inbox ++ [bytes] := by
    simpa [carries.solid] using nonempty.symm
  refine { carries with
    solid := outside, contacted := ?_, sent := ?_, unconnected := ?_, idle := ?_, answered := ?_
    done := ?_ }
  · intro exchange noted
    obtain ⟨earlier, before, rfl⟩ := Option.map_eq_some_iff.mp noted
    exact carries.contacted earlier before
  · intro relays exchange noted
    obtain ⟨earlier, before, rfl⟩ := Option.map_eq_some_iff.mp noted
    exact carries.sent relays earlier before
  · intro early
    simp [carries.unconnected early]
  · intro none
    exact carries.idle (by simpa using none)
  · intro exchange noted
    obtain ⟨earlier, before, rfl⟩ := Option.map_eq_some_iff.mp noted
    obtain ⟨taken, whole, ordered⟩ := carries.answered earlier before
    exact ⟨taken, by simp [whole], ordered⟩
  · intro place exchange noted passed received
    obtain ⟨earlier, before, rfl⟩ := Option.map_eq_some_iff.mp noted
    have closed := (carries.done place earlier before passed received).2
    rw [opened] at closed
    cases closed

theorem clientCloses (carries : Carries connection traffic)
    (closed : connection.client.closes = some client) :
    Carries { connection with client } traffic := by
  cases Peer.closes_eq closed
  exact { carries with }

theorem targetCloses (carries : Carries connection traffic)
    (closed : connection.target.closes = some target) :
    Carries { connection with target } traffic := by
  cases Peer.closes_eq closed
  exact { carries with done := fun place exchange noted passed received =>
    ⟨(carries.done place exchange noted passed received).1, rfl⟩ }

theorem giveUp (carries : Carries connection traffic)
    (early : connection.place.Unconnected) :
    Carries { connection with place := .returned } traffic := by
  have none := carries.unconnected early
  exact { carries with
    arriving := by simp, buffered := by simp [HandlerPlace.request], parsed := by simp
    contacted := by simp [none], unsent := fun outside => absurd trivial outside
    sent := by simp [none], unconnected := fun _ => none
    idle := fun _ => ⟨.inr rfl, (carries.idle none).2⟩, answered := by simp [none]
    done := by simp [none] }

/-- A handler that goes on before it connects. -/
theorem stays (carries : Carries connection traffic) (early : connection.place.Unconnected)
    {client : Peer} {place : HandlerPlace} (after : place.Unconnected) (left : place ≠ .receiving)
    (same : client.delivered = connection.client.delivered)
    (buffered : ∀ buffer, place.request = some buffer →
      receiveClientRequest traffic.asked = .ok (some buffer))
    (parsed : ∀ buffer parsed, place = .connecting buffer parsed →
      parseHttpRequest buffer connection.locals.parsed connection.locals.hostname = .ok parsed ∧
        parsed.accepted = true) :
    Carries { connection with client, place } traffic := by
  have none := carries.unconnected early
  have unsent := carries.unsent fun relays => relays.connected early
  exact { carries with
    arriving := fun arrived => absurd arrived left, buffered, parsed, unsent := fun _ => unsent
    sent := by simp [none], unconnected := fun _ => none
    idle := fun _ => ⟨.inl after, same ▸ (carries.idle none).2⟩, answered := by simp [none]
    done := by simp [none] }

/-- What `forward_request` is called for. -/
theorem handled {sent : Option (List UInt8)} {exchange : Exchange}
    (carries : Carries connection traffic) (place : connection.place = .forwarding buffer)
    (noted : traffic.exchange = some exchange)
    (ran : forwardRequest buffer connection.locals.forwarded connection.locals.modifiedRequest =
      .ok sent) :
    handleClientRequest traffic.asked connection.locals =
      .ok (.handled exchange.host exchange.service sent) := by
  obtain ⟨other, contacts⟩ := carries.contacted exchange noted
  have received := carries.buffered buffer (by rw [place]; rfl)
  cases received.symm.trans contacts.1
  exact contacts.handled ran

/-- A handler that is past `forward_request`, and moves what its target sent. -/
theorem relays (carries : Carries connection traffic)
    (before : ¬connection.place.Unconnected ∧ connection.place ≠ .returned)
    {client target : Peer} {place : HandlerPlace} (after : place.Relays)
    (solid : [] ∉ target.inbox)
    (sent : ∀ exchange, traffic.exchange = some exchange →
      (exchange.note connection results).Reached connection.locals traffic.asked target.delivered)
    (moved : ∀ exchange, traffic.exchange = some exchange →
      (exchange.note connection results).Divides client.delivered
        (place.held ++ target.inbox.flatten))
    (done : place.Done → ∀ exchange, traffic.exchange = some exchange →
      (exchange.note connection results).passed = true →
      (exchange.note connection results).received = true →
      target.inbox = [] ∧ target.closed = true) :
    Carries { connection with client, target, place }
      (traffic.note connection (.handler results)) := by
  have elsewhere : ∀ buffer parsed, connection.place ≠ .connecting buffer parsed := by
    intro buffer parsed early
    exact before.1 (by rw [early]; trivial)
  rw [traffic.note_handler elsewhere]
  have earlier {exchange : Exchange}
      (noted : (traffic.exchange.map fun exchange => exchange.note connection results) =
        some exchange) : ∃ earlier, traffic.exchange = some earlier ∧
        earlier.note connection results = exchange := Option.map_eq_some_iff.mp noted
  refine ⟨solid, ?_, by simp [after.request], ?_, ?_, fun outside => absurd after outside, ?_,
    fun early => absurd early after.connected, fun none => ?_, ?_, ?_⟩
  · rintro rfl
    exact after.elim
  · rintro buffer parsed rfl
    exact after.elim
  · intro exchange noted
    obtain ⟨was, there, rfl⟩ := earlier noted
    simpa using carries.contacted was there
  · intro _ exchange noted
    obtain ⟨was, there, rfl⟩ := earlier noted
    exact sent was there
  · exact absurd (carries.idle (by simpa using none)).1 (not_or.mpr before)
  · intro exchange noted
    obtain ⟨was, there, rfl⟩ := earlier noted
    exact moved was there
  · intro ended exchange noted
    obtain ⟨was, there, rfl⟩ := earlier noted
    exact done ended was there

theorem handler (carries : Carries connection traffic)
    (moved : connection.handle results = .continues next) :
    Carries next (traffic.note connection (.handler results)) := by
  have sent (relays : connection.place.Relays) (exchange)
      (noted : traffic.exchange = some exchange) :
      (exchange.note connection results).Reached connection.locals traffic.asked
        connection.target.delivered := by
    refine (carries.sent relays exchange noted).note fun buffer place => ?_
    rw [place] at relays
    exact relays.elim
  have kept (elsewhere : ∀ bytes, connection.place ≠ .sending bytes) (exchange)
      (noted : traffic.exchange = some exchange) :
      (exchange.note connection results).Divides connection.client.delivered
        (connection.place.held ++ connection.target.inbox.flatten) :=
    (carries.answered exchange noted).note elsewhere
  cases Connection.advanced moved with
  | @receive buffer place ready received =>
    have early : connection.place.Unconnected := by simp [place, HandlerPlace.Unconnected]
    rw [Traffic.note_early (carries.unconnected early) (by simp [place])]
    rw [carries.arriving place] at received
    refine carries.stays early trivial (by simp) (by simp) ?_ (by simp)
    rintro _ ⟨⟩
    exact received
  | giveUp place =>
    have early : connection.place.Unconnected := by simp [place, HandlerPlace.Unconnected]
    rw [Traffic.note_early (carries.unconnected early) (by simp [place])]
    exact carries.giveUp early
  | @parse buffer parsed place ran accepted =>
    have early : connection.place.Unconnected := by simp [place, HandlerPlace.Unconnected]
    rw [Traffic.note_early (carries.unconnected early) (by simp [place])]
    have same : connection.place.request = some buffer := by rw [place]; rfl
    refine carries.stays early trivial (by simp) rfl ?_ ?_
    · exact fun other holds => carries.buffered other (same.trans holds)
    · rintro _ _ ⟨⟩
      exact ⟨ran, accepted⟩
  | reject place =>
    have early : connection.place.Unconnected := by simp [place, HandlerPlace.Unconnected]
    rw [Traffic.note_early (carries.unconnected early) (by simp [place])]
    exact carries.giveUp early
  | @connect buffer parsed named place ran succeeds =>
    have none := carries.unconnected (by simp [place, HandlerPlace.Unconnected])
    have empty := (carries.idle none).2.1
    have same : connection.place.request = some buffer := by rw [place]; rfl
    have noted : traffic.note connection (.handler results) =
        { traffic with exchange := some (.start named.1 named.2) } := by
      simp [Traffic.note, Traffic.noteHandler, succeeds, place, ran]
    obtain ⟨parses, accepted⟩ := carries.parsed buffer parsed place
    rw [noted]
    refine { carries with
      solid := by simp [Peer.fresh], arriving := by simp
      buffered := fun other holds => carries.buffered other (same.trans holds), parsed := by simp
      contacted := ?_, unsent := fun _ => rfl, sent := by simp [HandlerPlace.Relays]
      unconnected := by simp [HandlerPlace.Unconnected], idle := by simp, answered := ?_
      done := by simp [HandlerPlace.Done] }
    · rintro _ ⟨⟩
      exact ⟨buffer, carries.buffered buffer same, parsed, parses, accepted, ran⟩
    · rintro _ ⟨⟩
      exact ⟨[], rfl, by simp [empty], fun _ => empty⟩
  | @unreachable buffer parsed place fails =>
    have same : traffic.note connection (.handler results) = traffic := by
      simp only [Traffic.note, Traffic.noteHandler, place, fails]
      split <;> rfl
    rw [same]
    exact carries.giveUp (by simp [place, HandlerPlace.Unconnected])
  | @forward buffer message taken place ran took =>
    have untouched := carries.unsent (by simp [place, HandlerPlace.Relays])
    refine carries.relays (by simp [place, HandlerPlace.Unconnected]) trivial carries.solid ?_ ?_
      (by simp [HandlerPlace.Done])
    · intro exchange noted
      refine ⟨some message, by simpa using carries.handled place noted ran, ?_, fun whole => ?_⟩
      · simpa [untouched] using Taking.taken_prefix took
      · simp only [Exchange.note, place, Bool.and_eq_true, decide_eq_true_eq] at whole
        simpa [untouched] using Taking.taken_whole took whole.1
    · simpa [place, HandlerPlace.held] using kept (by simp [place])
  | @skip buffer sent place ran lost =>
    have untouched := carries.unsent (by simp [place, HandlerPlace.Relays])
    refine carries.relays (by simp [place, HandlerPlace.Unconnected]) trivial carries.solid ?_ ?_
      (by simp [HandlerPlace.Done])
    · intro exchange noted
      refine ⟨sent, by simpa using carries.handled place noted ran, by simp [untouched], ?_⟩
      intro whole
      rcases lost with rfl | closed | partly
      · exact untouched
      · simp [Exchange.note, place, closed] at whole
      · simp [Exchange.note, place, partly] at whole
    · simpa [place, HandlerPlace.held] using kept (by simp [place])
  | finish place ready ended =>
    have empty := Peer.recv_empty carries.solid (by decide) ended
    have closed : connection.target.closed = true := by
      by_contra opened
      exact ready ⟨empty, Bool.eq_false_iff.mpr opened⟩
    refine carries.relays (by simp [place, HandlerPlace.Unconnected]) trivial carries.solid
      (sent (by simp [place, HandlerPlace.Relays])) ?_ fun _ _ _ _ _ => ⟨empty, closed⟩
    simpa [place, HandlerPlace.held] using kept (by simp [place])
  | breakOff place fails =>
    refine carries.relays (by simp [place, HandlerPlace.Unconnected]) trivial carries.solid
      (sent (by simp [place, HandlerPlace.Relays])) ?_ ?_
    · simpa [place, HandlerPlace.held] using kept (by simp [place])
    · intro _ exchange _ _ received
      simp [Exchange.note, place, fails] at received
  | relay place more =>
    refine carries.relays (by simp [place, HandlerPlace.Unconnected]) trivial
      (Peer.consume_solid carries.solid) ?_ ?_ (by simp [HandlerPlace.Done])
    · simpa using sent (by simp [place, HandlerPlace.Relays])
    · simp only [HandlerPlace.held, Peer.consume_flatten]
      simpa [place, HandlerPlace.held] using kept (by simp [place])
  | @pass bytes taken place opened took =>
    refine carries.relays (by simp [place, HandlerPlace.Unconnected]) trivial carries.solid
      (sent (by simp [place, HandlerPlace.Relays])) ?_ (by simp [HandlerPlace.Done])
    intro exchange noted
    have divides := carries.answered exchange noted
    rw [place] at divides
    refine divides.pass (Taking.taken_prefix took).sublist (by simp) fun passed => ?_
    simp only [Exchange.note, place, Bool.and_eq_true, decide_eq_true_eq] at passed
    exact ⟨passed.1, Taking.taken_whole took passed.2⟩
  | @drop bytes place fails =>
    refine carries.relays (by simp [place, HandlerPlace.Unconnected]) trivial carries.solid
      (sent (by simp [place, HandlerPlace.Relays])) ?_ ?_
    · intro exchange noted
      have divides := carries.answered exchange noted
      rw [place] at divides
      rw [← List.append_nil connection.client.delivered]
      refine divides.pass (List.nil_sublist bytes) (by simp) fun passed => ?_
      simp [Exchange.note, place, fails] at passed
    · intro _ exchange _ passed
      simp [Exchange.note, place, fails] at passed
  | close place =>
    refine carries.relays (by simp [place, HandlerPlace.Unconnected]) trivial carries.solid
      (sent (by simp [place, HandlerPlace.Relays])) ?_ ?_
    · simpa [place, HandlerPlace.held] using kept (by simp [place])
    · intro _ exchange noted
      simpa [Exchange.note, place] using carries.done (.inl place) exchange noted

/-- What happens on a connection is told by its traffic. -/
theorem step (carries : Carries connection traffic)
    (moved : connection.step event = .continues next) :
    Carries next (traffic.note connection event) := by
  cases event with
  | clientSends bytes =>
    obtain ⟨client, sent, rfl⟩ := Effect.ofPeer_continues moved
    exact carries.clientSends sent
  | clientCloses =>
    obtain ⟨client, closed, rfl⟩ := Effect.ofPeer_continues moved
    exact carries.clientCloses closed
  | targetSends bytes =>
    obtain ⟨target, sent, rfl⟩ := Effect.ofPeer_continues moved
    exact carries.targetSends sent
  | targetCloses =>
    obtain ⟨target, closed, rfl⟩ := Effect.ofPeer_continues moved
    exact carries.targetCloses closed
  | handler results => exact carries.handler moved

end Carries

private theorem Connection.step_locals {connection next : Connection}
    (moved : connection.step event = .continues next) : next.locals = connection.locals := by
  cases event with
  | clientSends bytes | clientCloses | targetSends bytes | targetCloses =>
    obtain ⟨_, _, rfl⟩ := Effect.ofPeer_continues moved
    rfl
  | handler results => cases Connection.advanced moved <;> rfl

/-- Every `send` to the client took all it was given, and no `recv` from the target
has failed. -/
def Traffic.Flawless (traffic : Traffic) : Prop :=
  ∀ exchange, traffic.exchange = some exchange →
    exchange.passed = true ∧ exchange.received = true

theorem Traffic.Flawless.note {traffic : Traffic} (flawless : traffic.Flawless)
    (connection : Connection) {event : Event}
    (whole : ∀ results, event = .handler results → results = .whole) :
    (traffic.note connection event).Flawless := by
  intro exchange noted
  cases event with
  | clientSends bytes | clientCloses | targetCloses => exact flawless exchange noted
  | targetSends bytes =>
    obtain ⟨earlier, before, rfl⟩ := Option.map_eq_some_iff.mp noted
    exact flawless earlier before
  | handler results =>
    obtain rfl := whole results rfl
    cases place : connection.place with
    | connecting buffer parsed =>
      simp only [Traffic.note, noteHandler, place] at noted
      split at noted
      · split at noted
        · cases noted
          exact ⟨rfl, rfl⟩
        · exact flawless exchange noted
      · exact flawless exchange noted
    | receiving | parsing _ | forwarding _ | relaying | sending _ | closing | returned =>
      rw [traffic.note_handler (by simp [place])] at noted
      obtain ⟨earlier, before, rfl⟩ := Option.map_eq_some_iff.mp noted
      simpa [Exchange.note, place, Results.whole] using flawless earlier before

variable {ι : Type} [DecidableEq ι] {locals : ι → Locals} {process final : Process ι}

/-- Every connection has the arrays it started with, and carries its traffic. -/
def Carried (locals : ι → Locals) (recorded : Process ι × (ι → Traffic)) : Prop :=
  ∀ client, (recorded.1.connections client).locals = locals client ∧
    Carries (recorded.1.connections client) (recorded.2 client)

theorem carried_invariant (locals : ι → Locals) :
    Invariant (recorded Process.step Process.note) (fun _ => True)
      (.start locals, fun _ => .start) (Carried locals) where
  initial := fun client => ⟨rfl, carries_accepted (locals client)⟩
  preserved := by
    rintro ⟨process, traffic⟩ label ⟨next, noted⟩ carried _ taken
    have moved : process.step label = some next := (recorded_step taken).1
    have same : noted = process.note label next traffic := (recorded_step taken).2
    subst same
    cases status : process.alive with
    | false =>
      rw [Process.step_dead status] at moved
      cases moved
      simpa [Process.note, status] using carried
    | true =>
      rcases Process.step_cases moved status with ⟨connection, stepped, rfl⟩ | ⟨_, rfl⟩
      · intro client
        by_cases own : client = label.1
        · subst own
          obtain ⟨same, carries⟩ := carried label.1
          simpa [Process.note, status] using
            ⟨(Connection.step_locals stepped).trans same, carries.step stepped⟩
        · simpa [Process.note, status, own] using carried client
      · have unchanged : process.note label { process with alive := false } traffic = traffic := by
          simp [Process.note]
        rw [unchanged]
        exact carried

/-- An exchange goes well as long as the calls of its handler do. -/
theorem flawless_run {traffic : ι → Traffic} (client : ι)
    (reached : run (recorded Process.step Process.note) (.start locals, fun _ => .start) labels =
      some (final, traffic))
    (whole : ∀ results, (client, .handler results) ∈ labels → results = .whole) :
    (traffic client).Flawless := by
  have invariant : Invariant (recorded Process.step Process.note)
      (fun label : ι × Event => ∀ results, label = (client, .handler results) → results = .whole)
      (.start locals, fun _ => .start) (fun whole => (whole.2 client).Flawless) := by
    refine ⟨by simp [Traffic.Flawless, Traffic.start], ?_⟩
    rintro ⟨process, traffic⟩ ⟨other, event⟩ ⟨next, noted⟩ flawless whole taken
    have same : noted = process.note (other, event) next traffic := (recorded_step taken).2
    subst same
    by_cases alive : next.alive = true
    · by_cases own : other = client
      · subst own
        have still : ((traffic other).note (process.connections other) event).Flawless :=
          Traffic.Flawless.note flawless _ fun results handler => whole results (by rw [handler])
        simpa [Process.note, alive] using still
      · simpa [Process.note, alive, Function.update_of_ne (Ne.symm own)] using flawless
    · simpa [Process.note, alive] using flawless
  refine invariant.run ?_ reached
  rintro _ member results rfl
  exact whole results member

/-- What the peers of a connection have got, beside its traffic. -/
structure Kept (locals : Locals) (connection : Connection) (traffic : Traffic) : Prop where
  untouched : traffic.exchange = none →
    connection.client.delivered = [] ∧ connection.target.delivered = []
  ordered : ∀ exchange, traffic.exchange = some exchange →
    connection.client.delivered.Sublist exchange.answered
  response : ∀ exchange, traffic.exchange = some exchange → exchange.passed = true →
    connection.client.delivered <+: exchange.answered
  complete : ∀ exchange, traffic.exchange = some exchange → connection.place.Done →
    exchange.passed = true → exchange.received = true →
    connection.client.delivered = exchange.answered
  contacted : ∀ exchange, traffic.exchange = some exchange → ∃ buffer,
    Contacts locals traffic.asked buffer exchange.host exchange.service
  unsent : ¬connection.place.Relays → connection.target.delivered = []
  request : ∀ exchange, traffic.exchange = some exchange → connection.place.Relays →
    exchange.Reached locals traffic.asked connection.target.delivered

theorem Carries.kept {connection : Connection} {traffic : Traffic}
    (carries : Carries connection traffic) : Kept connection.locals connection traffic where
  untouched := fun none => (carries.idle none).2
  ordered := by
    intro exchange noted
    obtain ⟨taken, whole, ordered, _⟩ := carries.answered exchange noted
    exact whole ▸ ordered.trans (List.sublist_append_left _ _)
  response := by
    intro exchange noted passed
    obtain ⟨taken, whole, _, all⟩ := carries.answered exchange noted
    exact whole ▸ all passed ▸ List.prefix_append _ _
  complete := by
    intro exchange noted done passed received
    obtain ⟨empty, _⟩ := carries.done done exchange noted passed received
    obtain ⟨taken, whole, _, all⟩ := carries.answered exchange noted
    have nothing : connection.place.held = [] := by
      rcases done with place | place <;> rw [place] <;> rfl
    rw [whole, all passed, nothing, empty]
    simp
  contacted := carries.contacted
  unsent := carries.unsent
  request := fun exchange noted relays => carries.sent relays exchange noted

end RequestProxy.Proxy
