import Mathlib.Logic.Function.Basic
import RequestProxy.Proxy.Http
import RequestProxy.Transition.System

/-! The connections that one process handles at the same time. The handlers share
nothing but the process, which a signal can end. -/

namespace RequestProxy.Proxy

open LibC

inductive Signal where
  | sigint
  | sigpipe

inductive Disposition where
  | terminate
  | handler

/-- The dispositions after the calls of `sigaction` in `main`. -/
def disposition : Signal → Disposition
  | .sigint => .handler
  | .sigpipe => .terminate

/-- A stream socket, seen from the proxy: the segments that its peer has sent,
whether the peer has closed it, and the bytes that were delivered to the peer. -/
structure Peer where
  inbox : List (List UInt8)
  closed : Bool
  delivered : List UInt8

namespace Peer

def fresh : Peer := ⟨[], false, []⟩

/-- `recv` waits for a segment or for the end of the stream. -/
def Waits (peer : Peer) : Prop := peer.inbox = [] ∧ peer.closed = false

instance (peer : Peer) : Decidable peer.Waits := inferInstanceAs (Decidable (_ ∧ _))

/-- The socket after a `recv` of at most `count` bytes. -/
def consume (peer : Peer) (count : Nat) : Peer :=
  match peer.inbox with
  | [] => peer
  | segment :: later =>
    if segment.length ≤ count then { peer with inbox := later }
    else { peer with inbox := segment.drop count :: later }

/-- What the peer itself does to the stream. -/
def sends (peer : Peer) (bytes : List UInt8) : Option Peer :=
  if peer.closed = true ∨ bytes = [] then none
  else some { peer with inbox := peer.inbox ++ [bytes] }

def closes (peer : Peer) : Option Peer :=
  if peer.closed = true then none else some { peer with closed := true }

end Peer

/-- What a `send` takes on an open connection: all it is given, the first byte and
so many others, or nothing, when it returns -1. While it waits for room its handler
takes no step. -/
inductive Taking where
  | whole
  | part (more : Nat)
  | fails
  deriving DecidableEq

def Taking.taken (bytes : List UInt8) : Taking → Option (List UInt8)
  | .whole => some bytes
  | .part more => some (bytes.take (more + 1))
  | .fails => none

/-- The result of a `send`: bytes are delivered, it returns -1, or its signal ends
the process. -/
inductive Sent where
  | delivered (peer : Peer)
  | failed
  | terminated

/-- `send` of a buffer, with or without `MSG_NOSIGNAL`. -/
def send (peer : Peer) (bytes : List UInt8) (noSignal : Bool) (taking : Taking) : Sent :=
  if peer.closed = true then
    if noSignal = true then .failed
    else
      match disposition .sigpipe with
      | .terminate => .terminated
      | .handler => .failed
  else
    match taking.taken bytes with
    | some taken => .delivered { peer with delivered := peer.delivered ++ taken }
    | none => .failed

/-- Where a handler is in `handle_client_request`, with what its arrays hold
that it still needs. -/
inductive HandlerPlace where
  | receiving
  | parsing (buffer : CharArray bufferSize)
  | connecting (buffer : CharArray bufferSize) (parsed : Parsed)
  | forwarding (buffer : CharArray bufferSize)
  | relaying
  | sending (bytes : List UInt8)
  | closing
  | returned

structure Connection where
  client : Peer
  target : Peer
  place : HandlerPlace
  locals : Locals

/-- What a step of a handler does. An access outside an array leaves nothing to
rely on, and is taken to end the process. -/
inductive Effect where
  | blocks
  | continues (connection : Connection)
  | terminates

/-- A peer that cannot move waits. -/
def Effect.ofPeer (peer : Option Peer) (store : Peer → Connection) : Effect :=
  match peer with
  | some moved => .continues (store moved)
  | none => .blocks

/-- What the calls in a handler's step return: whether connecting to the target
succeeds, whether `recv` does, and what `send` takes. -/
structure Results where
  connects : Bool
  receives : Bool
  taking : Taking
  deriving DecidableEq

/-- No call fails, and `send` takes all it is given. -/
def Results.whole : Results := ⟨true, true, .whole⟩

inductive Event where
  | clientSends (bytes : List UInt8)
  | clientCloses
  | targetSends (bytes : List UInt8)
  | targetCloses
  | handler (results : Results)
  deriving DecidableEq

namespace Connection

def accepted (locals : Locals) : Connection := ⟨.fresh, .fresh, .receiving, locals⟩

/-- One step of `handle_client_request`. -/
def handle (connection : Connection) (results : Results) : Effect :=
  match connection.place with
  | .receiving =>
    if results.receives = false then .continues { connection with place := .returned }
    else if connection.client.Waits then .blocks
    else
      match receiveClientRequest connection.client.inbox with
      | .ok (some buffer) => .continues { connection with
          client := connection.client.consume (bufferSize - 1)
          place := .parsing buffer }
      | .ok none => .continues { connection with place := .returned }
      | .error _ => .terminates
  | .parsing buffer =>
    match parseHttpRequest buffer connection.locals.parsed connection.locals.hostname with
    | .ok parsed =>
      if parsed.accepted then .continues { connection with place := .connecting buffer parsed }
      else .continues { connection with place := .returned }
    | .error _ => .terminates
  | .connecting buffer parsed =>
    match connectToTargetServer parsed.hostname parsed.port connection.locals.portStr with
    | .ok _ =>
      if results.connects then .continues { connection with target := .fresh, place := .forwarding buffer }
      else .continues { connection with place := .returned }
    | .error _ => .terminates
  | .forwarding buffer =>
    match forwardRequest buffer connection.locals.forwarded connection.locals.modifiedRequest with
    | .ok (some message) =>
      match send connection.target message true results.taking with
      | .delivered target => .continues { connection with target, place := .relaying }
      | .failed => .continues { connection with place := .relaying }
      | .terminated => .terminates
    | .ok none => .continues { connection with place := .relaying }
    | .error _ => .terminates
  | .relaying =>
    if results.receives = false then .continues { connection with place := .closing }
    else if connection.target.Waits then .blocks
    else
      let received := recv connection.target.inbox bufferSize
      if received = [] then .continues { connection with place := .closing }
      else .continues { connection with
        target := connection.target.consume bufferSize
        place := .sending received }
  | .sending bytes =>
    match send connection.client bytes false results.taking with
    | .delivered client => .continues { connection with client, place := .relaying }
    | .failed => .continues { connection with place := .closing }
    | .terminated => .terminates
  | .closing => .continues { connection with place := .returned }
  | .returned => .blocks

/-- What a peer does keeps the rest of the connection. -/
def step (connection : Connection) : Event → Effect
  | .clientSends bytes =>
    .ofPeer (connection.client.sends bytes) fun client => { connection with client }
  | .clientCloses => .ofPeer connection.client.closes fun client => { connection with client }
  | .targetSends bytes =>
    .ofPeer (connection.target.sends bytes) fun target => { connection with target }
  | .targetCloses => .ofPeer connection.target.closes fun target => { connection with target }
  | .handler results => connection.handle results

end Connection

structure Process (ι : Type) where
  alive : Bool
  connections : ι → Connection

variable {ι : Type} [DecidableEq ι]

/-- Connections that were accepted and on which nothing has happened. -/
def Process.start (locals : ι → Locals) : Process ι where
  alive := true
  connections := fun client => .accepted (locals client)

/-- One event on one of the connections. What happens to sockets of a process
that has ended has no effect. -/
def Process.step (process : Process ι) (label : ι × Event) : Option (Process ι) :=
  if process.alive then
    match (process.connections label.1).step label.2 with
    | .blocks => none
    | .continues connection => some { process with
        connections := Function.update process.connections label.1 connection }
    | .terminates => some { process with alive := false }
  else some process

end RequestProxy.Proxy
