import RequestProxy.Proxy.HttpCalls

/-! The calls of `send` in `forward_request` and `forward_response`. The kernel
may take fewer bytes than it is given; both functions look at the result of
`send` only to find out whether it failed. -/

namespace RequestProxy.Proxy

open LibC

/-- What `send` does on one socket: how many of the bytes its calls accept, the
calls counted from zero. A call that fails returns -1, which is `none` here. -/
structure Sender where
  accepts : Nat → List UInt8 → Option Nat
  bounded : accepts call bytes = some count → count ≤ bytes.length
  positive : accepts call bytes = some count → bytes ≠ [] → 0 < count

/-- No call of `send` fails. -/
def Sender.NeverFails (sender : Sender) : Prop :=
  ∀ call bytes, ∃ count, sender.accepts call bytes = some count

/-- The calls made for these messages, from one number on, take all they are
given. -/
def Sender.AcceptsAll (sender : Sender) : Nat → List (List UInt8) → Prop
  | _, [] => True
  | call, bytes :: messages =>
    sender.accepts call bytes = some bytes.length ∧ sender.AcceptsAll (call + 1) messages

/-- A socket that is written to, with the bytes it has accepted. -/
structure Outgoing where
  sender : Sender
  calls : Nat
  accepted : List UInt8

def Outgoing.fresh (sender : Sender) : Outgoing := ⟨sender, 0, []⟩

def Outgoing.send (socket : Outgoing) (bytes : List UInt8) : Option Nat × Outgoing :=
  let bytesSent := socket.sender.accepts socket.calls bytes
  (bytesSent, { socket with
    calls := socket.calls + 1
    accepted := socket.accepted ++ bytes.take (bytesSent.getD 0) })

/-- What one call of `recv` on the target returns when it returns bytes. -/
structure Chunk where
  bytes : List UInt8
  nonempty : bytes ≠ []
  fits : bytes.length ≤ bufferSize

/-- How `forward_response` ends: `recv` returns 0 or -1, or `send` fails. -/
inductive Relayed where
  | complete
  | receiveFailed
  | sendFailed
  deriving DecidableEq

/-- `forward_response`, when `recv` returns the chunks and then 0, or -1 if it
breaks off. -/
def forwardResponse (broken : Bool) : List Chunk → Outgoing → Relayed × Outgoing
  | [], client => (if broken then .receiveFailed else .complete, client)
  | chunk :: chunks, client =>
    match client.send chunk.bytes with
    | (none, client) => (.sendFailed, client)
    | (some _, client) => forwardResponse broken chunks client

/-- `forward_request` with its call of `send`. -/
def forwardToTarget (buffer : CharArray bufferSize) (line : RequestLine)
    (modifiedRequest : CharArray bufferSize) (target : Outgoing) : Except Fault Outgoing := do
  match ← forwardRequest buffer line modifiedRequest with
  | some message => return (target.send message).2
  | none => return target

def response (chunks : List Chunk) : List UInt8 := (chunks.map Chunk.bytes).flatten

private theorem send_whole_iff (socket : Outgoing) (steady : socket.sender.NeverFails)
    (bytes : List UInt8) :
    (socket.send bytes).2.accepted = socket.accepted ++ bytes ↔
      socket.sender.accepts socket.calls bytes = some bytes.length := by
  obtain ⟨count, result⟩ := steady socket.calls bytes
  have bound := socket.sender.bounded result
  constructor
  · intro whole
    have taken : bytes.take ((socket.sender.accepts socket.calls bytes).getD 0) = bytes :=
      List.append_cancel_left whole
    have lengths := congrArg List.length taken
    rw [result, Option.getD_some, List.length_take] at lengths
    rw [result]
    congr 1
    omega
  · intro all
    simp [Outgoing.send, all]

private theorem forwardResponse_cons {client : Outgoing} (broken : Bool) (chunks : List Chunk)
    (result : client.sender.accepts client.calls chunk.bytes = some count) :
    forwardResponse broken (chunk :: chunks) client =
      forwardResponse broken chunks (client.send chunk.bytes).2 := by
  simp [forwardResponse, Outgoing.send, result]

private theorem response_cons (chunk : Chunk) (chunks : List Chunk) :
    response (chunk :: chunks) = chunk.bytes ++ response chunks := by
  simp [response]

/-- How the loop ends when `send` may also fail: `sent` are the chunks for which
it did not, `parts` what it took of them. -/
structure Relays (broken : Bool) (chunks : List Chunk) (client : Outgoing) (sent : List Chunk)
    (parts : List (List UInt8)) (ending : Relayed × Outgoing) : Prop where
  first : sent <+: chunks
  taken : List.Forall₂ (fun part chunk => part <+: chunk.bytes ∧ part ≠ []) parts sent
  accepted : ending.2.accepted = client.accepted ++ parts.flatten
  failed : ending.1 = .sendFailed ↔ ∃ chunk, chunks[sent.length]? = some chunk ∧
    client.sender.accepts (client.calls + sent.length) chunk.bytes = none
  finished : ending.1 ≠ .sendFailed →
    sent = chunks ∧ ending.1 = if broken then .receiveFailed else .complete

/-- Every call of `send` takes a part of its chunk, and no more is sent after one
that fails. -/
theorem forwardResponse_relays (broken : Bool) (chunks : List Chunk) (client : Outgoing) :
    ∃ sent parts, Relays broken chunks client sent parts (forwardResponse broken chunks client) := by
  induction chunks generalizing client with
  | nil =>
    refine ⟨[], [], List.prefix_refl _, .nil, by simp [forwardResponse], ?_, ?_⟩
    · cases broken <;> simp [forwardResponse]
    · exact fun _ => ⟨rfl, rfl⟩
  | cons chunk chunks ih =>
    cases result : client.sender.accepts client.calls chunk.bytes with
    | none =>
      have ended : forwardResponse broken (chunk :: chunks) client =
          (.sendFailed, (client.send chunk.bytes).2) := by
        simp [forwardResponse, Outgoing.send, result]
      refine ⟨[], [], List.nil_prefix, .nil, ?_, ?_, ?_⟩
      · simp [ended, Outgoing.send, result]
      · simp [ended, result]
      · simp [ended]
    | some count =>
      obtain ⟨sent, parts, relays⟩ := ih (client.send chunk.bytes).2
      have continues := forwardResponse_cons broken chunks result
      have nonempty : chunk.bytes.take count ≠ [] := by
        have positive := client.sender.positive result chunk.nonempty
        simp [List.take_eq_nil_iff, chunk.nonempty]
        omega
      refine ⟨chunk :: sent, chunk.bytes.take count :: parts, ?_, ?_, ?_, ?_, ?_⟩
      · exact (List.prefix_cons_inj chunk).mpr relays.first
      · exact .cons ⟨List.take_prefix _ _, nonempty⟩ relays.taken
      · rw [continues, relays.accepted]
        simp [Outgoing.send, result]
      · rw [continues, relays.failed]
        simp [Outgoing.send, Nat.add_assoc, Nat.add_comm 1]
      · rw [continues]
        intro reached
        obtain ⟨rfl, same⟩ := relays.finished reached
        exact ⟨rfl, same⟩

theorem Relays.bound (relays : Relays broken chunks client sent parts ending) :
    parts.flatten.length ≤ (response chunks).length := by
  obtain ⟨later, split⟩ := relays.first
  have taken : parts.flatten.length ≤ (response sent).length := by
    have pairs := relays.taken
    clear relays split
    induction pairs with
    | nil => exact Nat.le_refl _
    | cons part _ ih =>
      rw [response_cons, List.flatten_cons, List.length_append, List.length_append]
      exact Nat.add_le_add part.1.length_le ih
  rw [← split, response, List.map_append, List.flatten_append, List.length_append]
  exact taken.trans (Nat.le_add_right _ _)

/-- The client gets the whole response just when every call takes all it is
given; then none has failed. -/
theorem forwardResponse_complete_iff (broken : Bool) (chunks : List Chunk) (client : Outgoing) :
    (forwardResponse broken chunks client).2.accepted = client.accepted ++ response chunks ↔
      client.sender.AcceptsAll client.calls (chunks.map Chunk.bytes) := by
  induction chunks generalizing client with
  | nil => simp [forwardResponse, response, Sender.AcceptsAll]
  | cons chunk chunks ih =>
    cases result : client.sender.accepts client.calls chunk.bytes with
    | none =>
      simp [forwardResponse, Outgoing.send, result, response_cons, chunk.nonempty,
        Sender.AcceptsAll]
    | some count =>
      have later := ih (client.send chunk.bytes).2
      have continues := forwardResponse_cons broken chunks result
      have sent : (client.send chunk.bytes).2.accepted = client.accepted ++ chunk.bytes.take count := by
        simp [Outgoing.send, result]
      have fits := client.sender.bounded result
      rw [continues, List.map_cons, Sender.AcceptsAll, result]
      constructor
      · intro whole
        obtain ⟨_, parts, relays⟩ := forwardResponse_relays broken chunks (client.send chunk.bytes).2
        have lengths := congrArg List.length (relays.accepted.symm.trans whole)
        have bound := relays.bound
        rw [sent, response_cons] at lengths
        simp only [List.length_append, List.length_take] at lengths
        have all : count = chunk.bytes.length := by omega
        refine ⟨congrArg some all, later.mp ?_⟩
        rw [whole, sent, all, List.take_length, response_cons, List.append_assoc]
      · intro ⟨all, others⟩
        rw [later.mpr others, sent, Option.some.inj all, List.take_length, response_cons,
          List.append_assoc]

/-- What `forward_response` does for any target and any client: the client gets,
in order, a part of each chunk up to the first call of `send` that fails, and
nothing after that; it gets the whole just when every call takes all. -/
theorem response_relayed (broken : Bool) (chunks : List Chunk) (client : Outgoing) :
    (∃ sent parts, Relays broken chunks client sent parts (forwardResponse broken chunks client)) ∧
    ((forwardResponse broken chunks client).2.accepted = client.accepted ++ response chunks ↔
      client.sender.AcceptsAll client.calls (chunks.map Chunk.bytes)) :=
  ⟨forwardResponse_relays broken chunks client, forwardResponse_complete_iff broken chunks client⟩

variable {buffer : CharArray bufferSize} {line : RequestLine}
variable {modifiedRequest : CharArray bufferSize} {message : List UInt8}

theorem forwardToTarget_eq
    (forwards : forwardRequest buffer line modifiedRequest = .ok (some message))
    (target : Outgoing) :
    forwardToTarget buffer line modifiedRequest target = .ok (target.send message).2 := by
  rw [forwardToTarget, forwards]
  rfl

/-- The client has the response and the target has the request. -/
def RelayedWhole (broken : Bool) (chunks : List Chunk) (client : Sender)
    (buffer : CharArray bufferSize) (line : RequestLine) (modifiedRequest : CharArray bufferSize)
    (message : List UInt8) (target : Sender) : Prop :=
  (forwardResponse broken chunks (.fresh client)).2.accepted = response chunks ∧
    ∃ socket, forwardToTarget buffer line modifiedRequest (.fresh target) = .ok socket ∧
      socket.accepted = message

/-- Sockets on which a call takes a single byte. -/
def Sender.grudging : Sender where
  accepts := fun _ bytes => some (min 1 bytes.length)
  bounded := by
    intro call bytes count taken
    cases taken
    exact Nat.min_le_right _ _
  positive := by
    intro call bytes count taken nonempty
    cases taken
    exact Nat.lt_min.mpr ⟨Nat.one_pos, List.length_pos_of_ne_nil nonempty⟩

def Sender.ready : Sender where
  accepts := fun _ bytes => some bytes.length
  bounded := by
    intro call bytes count taken
    cases taken
    exact Nat.le_refl _
  positive := by
    intro call bytes count taken nonempty
    cases taken
    exact List.length_pos_of_ne_nil nonempty

def plainRequest : CharArray bufferSize :=
  .ofText bufferSize (ascii "GET http://h HTTP/1.1\r\n") (by decide)

private theorem plainRequest_forwarded :
    forwardRequest plainRequest Locals.clear.forwarded Locals.clear.modifiedRequest =
      .ok (some (ascii "GET / HTTP/1.1\r\n")) := by
  have holds : Holds plainRequest.bytes (ascii "GET http://h HTTP/1.1\r\n") :=
    holds_ofText (by decide) (by decide)
  have words : firstWords 3 (ascii "GET http://h HTTP/1.1\r\n") =
      [ascii "GET", ascii "http://h", ascii "HTTP/1.1"] := by decide
  have fits := fits_three (by decide : (ascii "GET").length < 10)
    (by decide : (ascii "http://h").length < 1024) (by decide : (ascii "HTTP/1.1").length < 10)
  obtain ⟨read, scanned, method, url, protocol⟩ :=
    RequestLine.read_ok holds (words ▸ fits) Locals.clear.forwarded
  rw [words] at method url protocol
  exact forwardRequest_eq scanned holds method url protocol (by decide) (by decide) _

theorem partial_send_loses_bytes :
    ¬∀ (broken : Bool) (chunks : List Chunk) (client : Sender) (buffer : CharArray bufferSize)
      (line : RequestLine) (modifiedRequest : CharArray bufferSize) (message : List UInt8)
      (target : Sender), client.NeverFails → target.NeverFails →
        forwardRequest buffer line modifiedRequest = .ok (some message) →
        RelayedWhole broken chunks client buffer line modifiedRequest message target := by
  intro whole
  have steady : Sender.grudging.NeverFails := fun _ _ => ⟨_, rfl⟩
  have relayed := whole false [⟨[1, 2], by decide, by decide⟩] .grudging _ _ _ _ .grudging steady
    steady plainRequest_forwarded
  have short := relayed.1
  revert short
  decide

/-- Nothing is lost just when no call of `send` takes less than it is given. A
failing `send` to the client loses its chunk, so only the target's is assumed
not to fail. -/
theorem relayed_whole_iff {client target : Sender} (targetSteady : target.NeverFails)
    (forwards : forwardRequest buffer line modifiedRequest = .ok (some message))
    (broken : Bool) (chunks : List Chunk) :
    RelayedWhole broken chunks client buffer line modifiedRequest message target ↔
      client.AcceptsAll 0 (chunks.map Chunk.bytes) ∧ target.AcceptsAll 0 [message] := by
  have toClient := forwardResponse_complete_iff broken chunks (.fresh client)
  have toTarget := send_whole_iff (.fresh target) targetSteady message
  apply and_congr toClient
  rw [forwardToTarget_eq forwards]
  constructor
  · intro ⟨socket, ran, all⟩
    cases ran
    exact ⟨toTarget.mp all, trivial⟩
  · intro all
    exact ⟨_, rfl, toTarget.mpr all.1⟩

theorem relayed_whole_iff_sample :
    RelayedWhole false [⟨[1, 2], by decide, by decide⟩] .grudging plainRequest
        Locals.clear.forwarded Locals.clear.modifiedRequest (ascii "GET / HTTP/1.1\r\n") .ready ↔
      Sender.grudging.AcceptsAll 0 [[1, 2]] ∧
        Sender.ready.AcceptsAll 0 [ascii "GET / HTTP/1.1\r\n"] :=
  relayed_whole_iff (fun _ _ => ⟨_, rfl⟩) plainRequest_forwarded false _

end RequestProxy.Proxy
