import RequestProxy.Proxy.HttpCalls
import RequestProxy.Proxy.Relay

namespace RequestProxy.Proxy

open LibC Transition

namespace Connection

variable {connection : Connection}

/-- The handler is about to send to a client that has closed its connection. -/
def SendsToClosed (connection : Connection) : Prop :=
  (∃ bytes, connection.place = .sending bytes) ∧ connection.client.closed = true

def Overruns (connection : Connection) : Prop :=
  match connection.place with
  | .parsing buffer =>
    ∃ fault, parseHttpRequest buffer connection.locals.parsed connection.locals.hostname =
      .error fault
  | .connecting _ parsed =>
    ∃ fault, connectToTargetServer parsed.hostname parsed.port connection.locals.portStr =
      .error fault
  | .forwarding buffer =>
    ∃ fault, forwardRequest buffer connection.locals.forwarded connection.locals.modifiedRequest =
      .error fault
  | _ => False

/-- A handler ends the process in these two ways only. -/
theorem handle_terminates (ends : connection.handle results = .terminates) :
    connection.SendsToClosed ∨ connection.Overruns := by
  obtain ⟨client, target, place, locals⟩ := connection
  cases place with
  | receiving =>
    obtain ⟨result, ran⟩ := receiveClientRequest_ok client.inbox
    simp only [handle, ran] at ends
    split at ends
    · cases ends
    · split at ends
      · cases ends
      · cases result <;> cases ends
  | parsing buffer =>
    cases ran : parseHttpRequest buffer locals.parsed locals.hostname with
    | error fault => exact .inr ⟨fault, ran⟩
    | ok parsed =>
      simp only [handle, ran] at ends
      split at ends <;> cases ends
  | connecting buffer parsed =>
    cases ran : connectToTargetServer parsed.hostname parsed.port locals.portStr with
    | error fault => exact .inr ⟨fault, ran⟩
    | ok service =>
      simp only [handle, ran] at ends
      split at ends <;> cases ends
  | forwarding buffer =>
    cases ran : forwardRequest buffer locals.forwarded locals.modifiedRequest with
    | error fault => exact .inr ⟨fault, ran⟩
    | ok sent =>
      cases sent with
      | none => simp [handle, ran] at ends
      | some message =>
        by_cases closed : target.closed = true
        · simp [handle, ran, send, closed] at ends
        · cases took : results.taking.taken message <;>
            simp [handle, ran, send, closed, took] at ends
  | relaying =>
    simp only [handle] at ends
    split at ends
    · cases ends
    · split at ends
      · cases ends
      · split at ends <;> cases ends
  | sending bytes =>
    by_cases closed : client.closed = true
    · exact .inl ⟨⟨bytes, rfl⟩, closed⟩
    · cases took : results.taking.taken bytes <;> simp [handle, send, closed, took] at ends
  | closing | returned => cases ends

theorem SendsToClosed.terminates (sends : connection.SendsToClosed) (results : Results) :
    connection.handle results = .terminates := by
  obtain ⟨⟨bytes, sending⟩, closed⟩ := sends
  simp [handle, sending, send, closed, disposition]

theorem Overruns.terminates (overruns : connection.Overruns) (results : Results) :
    connection.handle results = .terminates := by
  obtain ⟨client, target, place, locals⟩ := connection
  cases place with
  | parsing buffer =>
    obtain ⟨fault, ran⟩ := overruns
    simp only [handle, ran]
  | connecting buffer parsed =>
    obtain ⟨fault, ran⟩ := overruns
    simp only [handle, ran]
  | forwarding buffer =>
    obtain ⟨fault, ran⟩ := overruns
    simp only [handle, ran]
  | receiving | relaying | sending | closing | returned => exact overruns.elim

theorem step_terminates_iff (connection : Connection) (event : Event) : connection.step event = .terminates ↔
    ∃ results, event = .handler results ∧
      (connection.SendsToClosed ∨ connection.Overruns) := by
  constructor
  · intro ends
    cases event with
    | clientSends bytes | clientCloses | targetSends bytes | targetCloses =>
      simp only [step, Effect.ofPeer] at ends
      split at ends <;> cases ends
    | handler results => exact ⟨results, rfl, handle_terminates ends⟩
  · rintro ⟨results, rfl, sends | overruns⟩
    · exact sends.terminates results
    · exact overruns.terminates results

end Connection

variable {ι : Type} [DecidableEq ι] {process next : Process ι} {client : ι}

/-- All a step can do to a process that is alive. -/
theorem Process.step_cases (taken : process.step label = some next) (alive : process.alive = true) :
    (∃ connection, (process.connections label.1).step label.2 = .continues connection ∧
      next = { process with
        connections := Function.update process.connections label.1 connection }) ∨
    ((process.connections label.1).step label.2 = .terminates ∧
      next = { process with alive := false }) := by
  rw [Process.step, if_pos alive] at taken
  split at taken
  · cases taken
  · rename_i connection moved
    exact .inl ⟨connection, moved, (Option.some.inj taken).symm⟩
  · rename_i ended
    exact .inr ⟨ended, (Option.some.inj taken).symm⟩

theorem Process.step_dead (dead : process.alive = false) (label : ι × Event) :
    process.step label = some process := by
  simp [Process.step, dead]

/-- Two processes are alike but for one of the connections. -/
structure AlikeApart (client : ι) (first second : Process ι) : Prop where
  alive : first.alive = second.alive
  others : ∀ other, other ≠ client → first.connections other = second.connections other

/-- A label of one client does not make its handler send to it after it closed
the connection, or leave an array. -/
def Tolerates (client : ι) (process : Process ι) (label : ι × Event) : Prop :=
  label.1 = client → process.alive = true → ∀ results, label.2 = .handler results →
    ¬(process.connections client).SendsToClosed ∧ ¬(process.connections client).Overruns

private theorem tolerates_iff (own : label.1 = client) (alive : process.alive = true)
    (taken : process.step label = some next) :
    Tolerates client process label ↔ next.alive = true := by
  subst own
  have ends := Connection.step_terminates_iff (process.connections label.1) label.2
  rcases Process.step_cases taken alive with ⟨connection, moved, rfl⟩ | ⟨ended, rfl⟩
  · refine iff_of_true (fun _ _ results handler => ?_) alive
    have survives : ¬(process.connections label.1).step label.2 = .terminates := by simp [moved]
    rw [ends] at survives
    exact not_or.mp fun dangerous => survives ⟨results, handler, dangerous⟩
  · refine iff_of_false (fun tolerates => ?_) (by simp)
    obtain ⟨results, handler, dangerous⟩ := ends.mp ended
    exact not_or.mpr (tolerates rfl alive results handler) dangerous

theorem AlikeApart.other {first second : Process ι} (alike : AlikeApart client first second)
    (elsewhere : label.1 ≠ client) (taken : first.step label = some next) :
    ∃ moved, second.step label = some moved ∧ AlikeApart client next moved := by
  have same := alike.others label.1 elsewhere
  cases status : first.alive with
  | false =>
    have dead : second.alive = false := alike.alive ▸ status
    rw [Process.step_dead status] at taken
    exact ⟨second, Process.step_dead dead label, Option.some.inj taken ▸ alike⟩
  | true =>
    have alive : second.alive = true := alike.alive ▸ status
    rcases Process.step_cases taken status with ⟨connection, moved, rfl⟩ | ⟨ended, rfl⟩
    · rw [same] at moved
      refine ⟨{ second with
        connections := Function.update second.connections label.1 connection }, ?_, ?_, ?_⟩
      · rw [Process.step, if_pos alive, moved]
      · exact alike.alive
      · intro other different
        by_cases here : other = label.1
        · subst here
          simp
        · simpa [here] using alike.others other different
    · rw [same] at ended
      refine ⟨{ second with alive := false }, ?_, rfl, alike.others⟩
      rw [Process.step, if_pos alive, ended]

theorem AlikeApart.own {first second : Process ι} (alike : AlikeApart client first second)
    (own : label.1 = client) (tolerates : Tolerates client first label)
    (taken : first.step label = some next) : AlikeApart client next second := by
  cases status : first.alive with
  | false =>
    rw [Process.step_dead status] at taken
    exact Option.some.inj taken ▸ alike
  | true =>
    have survives := (tolerates_iff own status taken).mp tolerates
    rcases Process.step_cases taken status with ⟨connection, moved, rfl⟩ | ⟨ended, rfl⟩
    · refine ⟨alike.alive, fun other different => ?_⟩
      have elsewhere : other ≠ label.1 := own ▸ different
      simpa [elsewhere] using alike.others other different
    · cases survives

def apart (client : ι) (labels : List (ι × Event)) : List (ι × Event) :=
  labels.filter fun label => label.1 ≠ client

private theorem run_apart {start final : Process ι}
    (tolerates : ∀ process label, Visits Process.step start labels process label →
      Tolerates client process label)
    (reached : run Process.step start labels = some final) :
    ∃ ended, run Process.step start (apart client labels) = some ended ∧
      AlikeApart client final ended := by
  refine run_erased (AlikeApart client) ?_ ?_ ⟨rfl, fun _ _ => rfl⟩ tolerates reached
  · intro state other label next alike kept taken
    exact alike.other (by simpa using kept) taken
  · intro state other label next alike dropped tolerates taken
    exact alike.own (by simpa using dropped) tolerates taken

/-- The step of a connection on its own, while it keeps the process alive. -/
def Connection.advance (connection : Connection) (event : Event) : Option Connection :=
  match connection.step event with
  | .continues next => some next
  | .blocks | .terminates => none

theorem run_connection (process : Process ι) (client : ι) (alive : process.alive = true)
    (reached : run Connection.advance (process.connections client) events = some final) :
    run Process.step process (events.map fun event => (client, event)) =
      some { process with connections := Function.update process.connections client final } := by
  induction events generalizing process with
  | nil =>
    rw [← Option.some.inj reached]
    simp
  | cons event rest ih =>
    rw [run_cons] at reached
    obtain ⟨next, moved, continued⟩ := Option.bind_eq_some_iff.mp reached
    have taken : process.step (client, event) = some { process with
        connections := Function.update process.connections client next } := by
      rw [Connection.advance] at moved
      rw [Process.step, if_pos alive]
      cases effect : (process.connections client).step event with
      | blocks | terminates => simp [effect] at moved
      | continues connection =>
        simp only [effect, Option.some.injEq] at moved
        rw [moved]
    have later : run Process.step { process with
        connections := Function.update process.connections client next }
        (rest.map fun event => (client, event)) = _ := ih _ alive (by simpa using continued)
    rw [List.map_cons, run_cons, taken, Option.bind_some, later]
    simp

/-- The first steps of a handler do what `handle_client_request` does up to
`forward_response`. -/
theorem Connection.serves (connection : Connection) (place : connection.place = .receiving)
    (ready : ¬connection.client.Waits)
    (received : receiveClientRequest connection.client.inbox = .ok (some buffer))
    (handled : handleBuffer buffer connection.locals =
      .ok (.handled host service (some message))) :
    run Connection.advance connection (List.replicate 4 (.handler .whole)) = some { connection with
      client := connection.client.consume (bufferSize - 1)
      target := ⟨[], false, message⟩
      place := .relaying } := by
  obtain ⟨client, target, _, locals⟩ := connection
  cases place
  obtain ⟨parsed, parses, accepted, connects, forwards⟩ := handleBuffer_handled handled
  have receives : Connection.advance ⟨client, target, .receiving, locals⟩ (.handler .whole) =
      some ⟨client.consume (bufferSize - 1), target, .parsing buffer, locals⟩ := by
    simp only [advance, step, handle, Results.whole, Bool.true_eq_false, if_false, if_neg ready,
      received]
  have reads (client : Peer) : Connection.advance ⟨client, target, .parsing buffer, locals⟩
      (.handler .whole) = some ⟨client, target, .connecting buffer parsed, locals⟩ := by
    simp only [advance, step, handle, parses, accepted, if_true]
  have contacts (client : Peer) :
      Connection.advance ⟨client, target, .connecting buffer parsed, locals⟩ (.handler .whole) =
        some ⟨client, .fresh, .forwarding buffer, locals⟩ := by
    simp only [advance, step, handle, connects, Results.whole, if_true]
  have sends (client : Peer) : Connection.advance ⟨client, .fresh, .forwarding buffer, locals⟩
      (.handler .whole) = some ⟨client, ⟨[], false, message⟩, .relaying, locals⟩ := by
    simp only [advance, step, handle, forwards]
    rfl
  simp only [List.replicate, run_cons, receives, reads, contacts, sends, Option.bind_some, run_nil]

def rootRequest : List UInt8 := ascii "GET http://h HTTP/1.1\r\n\r\n"

/-- What happens on a connection until its handler has a byte for the client. -/
def untilResponse : List Event :=
  .clientSends rootRequest :: List.replicate 4 (.handler .whole) ++
    [.targetSends (ascii "x"), .handler .whole]

/-- The handler has sent a message to its target and has a byte for the client. -/
def Connection.answered (message : List UInt8) : Connection :=
  ⟨⟨[], false, []⟩, ⟨[], false, message⟩, .sending (ascii "x"), Locals.clear⟩

theorem response_reached : ∃ message,
    run Connection.advance (.accepted Locals.clear) untilResponse = some (.answered message) := by
  have words : firstWords 3 rootRequest = [ascii "GET", ascii "http://h", ascii "HTTP/1.1"] := by
    decide
  have fits : Fits (firstWords 3 rootRequest) :=
    words ▸ fits_three (by decide) (by decide) (by decide)
  obtain ⟨buffer, received, holds⟩ := receiveClientRequest_eq
    (by decide : 0 ∉ rootRequest) (by decide) (by decide) []
  have target : parsedTarget (ascii "http://h") = some (ascii "h", 80) := by decide
  obtain ⟨parsed, ran, accepted, connects, sent⟩ :=
    handle_accepted (m := ascii "GET") (u := ascii "http://h") (p := ascii "HTTP/1.1") holds fits
      Locals.clear_contains Locals.clear_contains (by rw [words]; rfl) (by rw [words]; rfl)
      (by rw [words]; rfl) target (by decide)
  obtain ⟨service, message, handled⟩ : ∃ service message, handleBuffer buffer Locals.clear =
      .ok (.handled (ascii "h") service (some message)) := by
    simp only [handleBuffer, ran, ok_bind, accepted, if_true, connects, sent]
    exact ⟨_, _, rfl⟩
  have arrives : Connection.advance (.accepted Locals.clear) (.clientSends rootRequest) =
      some ⟨⟨[rootRequest], false, []⟩, .fresh, .receiving, Locals.clear⟩ := rfl
  have served := Connection.serves ⟨⟨[rootRequest], false, []⟩, .fresh, .receiving, Locals.clear⟩
    rfl (by simp [Peer.Waits]) received handled
  refine ⟨message, ?_⟩
  rw [untilResponse, List.cons_append, run_cons, arrives, Option.bind_some, run_append, served]
  rfl

/-- Two connections with a byte for each client. -/
theorem both_reached : ∃ message,
    run Process.step (.start fun _ => Locals.clear)
      ((untilResponse.map fun event => (true, event)) ++
        untilResponse.map fun event => (false, event)) =
          some ⟨true, fun _ => .answered message⟩ := by
  obtain ⟨message, reached⟩ := response_reached
  refine ⟨message, ?_⟩
  have first := run_connection (.start fun _ => Locals.clear) true rfl reached
  have second := run_connection ⟨true, Function.update
    (Process.start fun _ => Locals.clear).connections true (.answered message)⟩ false rfl reached
  have alive : (Process.start fun _ : Bool => Locals.clear).alive = true := rfl
  rw [run_append, first, Option.bind_some, alive, second]
  congr 2
  funext client
  cases client <;> simp

/-- A client that closes its connection takes a byte from the other client. -/
theorem close_not_isolated :
    ¬∀ (locals : Bool → Locals) (earlier later : List (Bool × Event)) (one two : Process Bool),
      run Process.step (.start locals) (earlier ++ later) = some one →
      run Process.step (.start locals) (earlier ++ (true, .clientCloses) :: later) = some two →
      (one.connections false).client.delivered = (two.connections false).client.delivered := by
  intro isolated
  obtain ⟨message, reached⟩ := both_reached
  have same := isolated (fun _ => Locals.clear) _ [(true, .handler .whole), (false, .handler .whole)]
    _ _ (by rw [run_append, reached]; rfl) (by rw [run_append, reached]; rfl)
  revert same
  simp [ascii]

/-- Two runs in which the other connections take the same steps deliver the same
bytes to every other client, when neither makes the handler of the one client
end the process. -/
theorem connections_isolated (client : ι) {start one two : Process ι}
    {first second : List (ι × Event)} (same : apart client first = apart client second)
    (ranFirst : run Process.step start first = some one)
    (ranSecond : run Process.step start second = some two)
    (tolerantFirst : ∀ process label, Visits Process.step start first process label →
      Tolerates client process label)
    (tolerantSecond : ∀ process label, Visits Process.step start second process label →
      Tolerates client process label)
    (different : other ≠ client) :
    (one.connections other).client.delivered = (two.connections other).client.delivered := by
  obtain ⟨ended, ran, alikeFirst⟩ := run_apart tolerantFirst ranFirst
  obtain ⟨_, again, alikeSecond⟩ := run_apart tolerantSecond ranSecond
  rw [same, again] at ran
  cases ran
  rw [alikeFirst.others other different, alikeSecond.others other different]

/-- One client is to get a byte while the other may close its connection. -/
def closing : Process Bool where
  alive := true
  connections := fun client =>
    if client then .accepted Locals.clear
    else ⟨.fresh, .fresh, .sending (ascii "x"), Locals.clear⟩

theorem connections_isolated_sample : ∃ one two : Process Bool,
    run Process.step closing
      [(true, .clientCloses), (true, .handler .whole), (false, .handler .whole)] = some one ∧
    run Process.step closing [(false, .handler .whole)] = some two ∧
    (one.connections false).client.delivered = (two.connections false).client.delivered := by
  obtain ⟨one, ranFirst⟩ : ∃ one, run Process.step closing
      [(true, .clientCloses), (true, .handler .whole), (false, .handler .whole)] = some one := ⟨_, rfl⟩
  obtain ⟨two, ranSecond⟩ : ∃ two, run Process.step closing [(false, .handler .whole)] = some two :=
    ⟨_, rfl⟩
  have same : apart true [(true, .clientCloses), (true, .handler .whole), (false, .handler .whole)] =
      apart true [(false, .handler .whole)] := rfl
  refine ⟨one, two, ranFirst, ranSecond,
    connections_isolated true same ranFirst ranSecond ?_ ?_ (by decide)⟩
  · rintro process label ⟨earlier, later, split, ran⟩ own alive results handler
    match earlier with
    | [] =>
      cases split
      cases handler
    | [_] =>
      cases split
      cases ran
      refine ⟨fun sends => ?_, id⟩
      obtain ⟨⟨_, place⟩, _⟩ := sends
      cases place
    | [_, _] =>
      cases split
      cases own
    | _ :: _ :: _ :: _ => simp at split
  · rintro process label ⟨earlier, later, split, ran⟩ own
    match earlier with
    | [] =>
      cases split
      cases own
    | _ :: _ => simp at split

end RequestProxy.Proxy
