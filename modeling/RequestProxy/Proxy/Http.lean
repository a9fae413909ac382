import RequestProxy.LibC.Text
import RequestProxy.LibC.Scan

/-! The functions of `http_proxy.c` that receive, parse and forward a request.
The arrays that a function leaves uninitialised are arguments, so that nothing
is assumed about them. -/

namespace RequestProxy.Proxy

open LibC

def bufferSize : Nat := 4096

structure RequestLine where
  method : CharArray 10
  url : CharArray 1024
  protocol : CharArray 10

/-- `sscanf(buffer, "%s %s %s", method, url, protocol)`. -/
def RequestLine.read (line : RequestLine) (buffer : CharArray bufferSize) :
    Except Fault RequestLine := do
  let values ← sscanf buffer.bytes [.word, .space, .word, .space, .word]
  return {
    method := ← line.method.assign values[0]?
    url := ← line.url.assign values[1]?
    protocol := ← line.protocol.assign values[2]? }

/-- `recv` on a socket that delivers the given segments; it returns nothing at
the end of the stream. -/
def recv (segments : List (List UInt8)) (count : Nat) : List UInt8 :=
  (segments.headD []).take count

/-- `receive_client_request`. An error of `recv` ends like an empty stream. -/
def receiveClientRequest (segments : List (List UInt8)) :
    Except Fault (Option (CharArray bufferSize)) := do
  let received := recv segments (bufferSize - 1)
  if received.length = 0 then return none
  return some (← (CharArray.zero bufferSize).store 0 received)

/-- What `parse_http_request` prints. -/
inductive Report where
  | target (hostname : List UInt8) (port : Int32)
  | defaultPort (hostname : List UInt8) (port : Int32)
  | error (text : String)
  | unexpectedUrl (url : List UInt8)

/-- The result of `parse_http_request` with the values it stores to its
arguments. -/
structure Parsed where
  accepted : Bool
  hostname : CharArray 256
  port : Int32
  report : Report

/-- The set of `%255[^:/]`. -/
def notColonSlash (byte : UInt8) : Bool := byte ≠ 58 && byte ≠ 47

/-- The set of `%255[^/]`. -/
def notSlash (byte : UInt8) : Bool := byte ≠ 47

/-- The branch of `parse_http_request` for a URL that starts with `http://`,
from `url + 7` on. -/
def parseHttpUrl (pointer : List UInt8) (hostname : CharArray 256) (port : Int32) :
    Except Fault Parsed := do
  let values ← sscanf pointer [.scanset 255 notColonSlash, .literal 58, .decimal]
  let hostname ← hostname.assign values[0]?
  match values with
  | [_, .number port] =>
    return ⟨true, hostname, port, .target (← readString hostname.bytes) port⟩
  | _ =>
    let values ← sscanf pointer [.scanset 255 notSlash]
    let hostname ← hostname.assign values[0]?
    if values.length = 1 then
      return ⟨true, hostname, port, .defaultPort (← readString hostname.bytes) port⟩
    else return ⟨false, hostname, port, .error "Failed to parse hostname"⟩

def parseHttpRequest (buffer : CharArray bufferSize) (line : RequestLine)
    (hostname : CharArray 256) : Except Fault Parsed := do
  let line ← line.read buffer
  let url := line.url.bytes
  let port : Int32 := 80
  if (← strncmp url (ascii "http://" ++ [0]) 7) = 0 then
    parseHttpUrl (url.drop 7) hostname port
  else if (← strncmp url (ascii "https://" ++ [0]) 8) = 0 then
    return ⟨false, hostname, port, .error "Only HTTP requests supported at this stage"⟩
  else return ⟨false, hostname, port, .unexpectedUrl (← readString url)⟩

/-- The node and the service that `connect_to_target_server` passes to
`getaddrinfo`. -/
def connectToTargetServer (hostname : CharArray 256) (port : Int32) (portStr : CharArray 6) :
    Except Fault (List UInt8 × List UInt8) := do
  let portStr ← snprintf portStr 6 (decimalText port.toInt)
  return (← readString hostname.bytes, ← readString portStr.bytes)

/-- The part of `forward_request` that fills `path`, from `url + 7` on. -/
def fillPath (path : CharArray 1024) (pointer : List UInt8) : Except Fault (CharArray 1024) := do
  match ← strchr pointer 47 with
  | some pathStart => strncpy path pathStart (1024 - 1)
  | none => strcpy path (ascii "/" ++ [0])

/-- The part of `forward_request` that appends the headers. -/
def appendHeaders (modifiedRequest buffer : CharArray bufferSize) :
    Except Fault (CharArray bufferSize) := do
  match ← strstr buffer.bytes (ascii "\r\n") with
  | some headers =>
    let length ← strlen modifiedRequest.bytes
    strncat modifiedRequest (headers.drop 2) (bufferSize - length - 1)
  | none => return modifiedRequest

/-- `forward_request`: the bytes it passes to `send`, unless it returns before
with the error "Invalid HTTP request URL". -/
def forwardRequest (buffer : CharArray bufferSize) (line : RequestLine)
    (modifiedRequest : CharArray bufferSize) : Except Fault (Option (List UInt8)) := do
  let path := CharArray.zero 1024
  let line ← line.read buffer
  if (← strncmp line.url.bytes (ascii "http://" ++ [0]) 7) = 0 then
    let path ← fillPath path (line.url.bytes.drop 7)
    let method ← readString line.method.bytes
    let target ← readString path.bytes
    let protocol ← readString line.protocol.bytes
    let modifiedRequest ← snprintf modifiedRequest bufferSize
      (method ++ ascii " " ++ target ++ ascii " " ++ protocol ++ ascii "\r\n")
    let modifiedRequest ← appendHeaders modifiedRequest buffer
    return some (← readString modifiedRequest.bytes)
  else return none

/-- What the arrays hold before anything is stored in them. -/
structure Locals where
  hostname : CharArray 256
  parsed : RequestLine
  portStr : CharArray 6
  forwarded : RequestLine
  modifiedRequest : CharArray bufferSize

def Locals.clear : Locals where
  hostname := .zero 256
  parsed := ⟨.zero 10, .zero 1024, .zero 10⟩
  portStr := .zero 6
  forwarded := ⟨.zero 10, .zero 1024, .zero 10⟩
  modifiedRequest := .zero bufferSize

/-- What becomes of a request: it is rejected, or the target is contacted and
`forward_request` sends to it. -/
inductive Outcome where
  | rejected
  | handled (hostname service : List UInt8) (sent : Option (List UInt8))
  deriving DecidableEq

/-- `handle_client_request` from the buffer on, up to `forward_response`, when
the connection to the target succeeds. -/
def handleBuffer (buffer : CharArray bufferSize) (locals : Locals) : Except Fault Outcome := do
  let parsed ← parseHttpRequest buffer locals.parsed locals.hostname
  if parsed.accepted then
    let (hostname, service) ← connectToTargetServer parsed.hostname parsed.port locals.portStr
    let sent ← forwardRequest buffer locals.forwarded locals.modifiedRequest
    return .handled hostname service sent
  else return .rejected

/-- `handle_client_request` on a connection that delivers the given segments. -/
def handleClientRequest (segments : List (List UInt8)) (locals : Locals) :
    Except Fault Outcome := do
  match ← receiveClientRequest segments with
  | some buffer => handleBuffer buffer locals
  | none => return .rejected

end RequestProxy.Proxy
