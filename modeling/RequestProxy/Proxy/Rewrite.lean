import RequestProxy.Proxy.RequestText
import RequestProxy.Proxy.Target

namespace RequestProxy.Proxy

open LibC

variable {buffer : CharArray bufferSize}

/-- A byte of a host. -/
def inHost (byte : UInt8) : Bool :=
  byte ≠ 58 && byte ≠ 47 && byte ≠ 63 && byte ≠ 35 && byte ≠ 64

/-- A port as a URL writes it. -/
structure PortNumeral where
  digits : List UInt8
  nonempty : digits ≠ []
  numeral : ∀ byte ∈ digits, isDigit byte = true
  positive : 1 ≤ digitsValue digits
  small : digitsValue digits ≤ 65535

structure RequestParts where
  method : List UInt8
  host : List UInt8
  port : Option PortNumeral
  tail : List UInt8
  protocol : List UInt8
  rest : List UInt8

namespace RequestParts

variable (parts : RequestParts)

def portText : List UInt8 :=
  match parts.port with
  | some numeral => 58 :: numeral.digits
  | none => []

def portValue : Nat :=
  match parts.port with
  | some numeral => digitsValue numeral.digits
  | none => 80

def url : List UInt8 := ascii "http://" ++ (parts.host ++ (parts.portText ++ parts.tail))

def line : List UInt8 := requestLine parts.method parts.url parts.protocol

def bytes : List UInt8 := parts.line ++ ascii "\r\n" ++ parts.rest

def path : List UInt8 := if parts.tail = [] then ascii "/" else parts.tail

def rewritten : List UInt8 :=
  parts.method ++ ascii " " ++ parts.path ++ ascii " " ++ parts.protocol ++ ascii "\r\n" ++
    parts.rest

end RequestParts

/-- A well-formed request to a proxy. -/
structure ProxiedRequest extends RequestParts where
  method_nonempty : method ≠ []
  method_solid : Solid method
  method_short : method.length ≤ 9
  host_nonempty : host ≠ []
  host_solid : Solid host
  host_plain : ∀ byte ∈ host, inHost byte = true
  host_short : host.length ≤ 255
  tail_solid : Solid tail
  tail_slash : tail = [] ∨ tail.head? = some 47
  url_short : toRequestParts.url.length ≤ 1023
  protocol_nonempty : protocol ≠ []
  protocol_solid : Solid protocol
  protocol_short : protocol.length ≤ 9
  rest_clean : 0 ∉ rest
  length : toRequestParts.bytes.length ≤ 4095

namespace ProxiedRequest

variable (request : ProxiedRequest)

private theorem portText_bytes : ∀ byte ∈ request.portText, byte = 58 ∨ isDigit byte = true := by
  intro byte member
  rw [RequestParts.portText] at member
  split at member
  · rename_i numeral _
    exact (List.mem_cons.mp member).imp id (numeral.numeral byte)
  · simp at member

private theorem portText_solid : Solid request.portText := by
  intro byte member
  rcases request.portText_bytes byte member with same | digit
  · rw [same]
    decide
  · have bounds := (isDigit_iff byte).mp digit
    refine ⟨?_, ?_⟩
    · rw [Bool.eq_false_iff, ne_eq, isSpace_iff]
      omega
    · intro zero
      simp [zero] at bounds

theorem url_solid : Solid request.url :=
  solid_http.append
    (request.host_solid.append (request.portText_solid.append request.tail_solid))

theorem url_http : ascii "http://" <+: request.url := List.prefix_append _ _

theorem url_nonempty : request.url ≠ [] := by
  intro empty
  have prefixed := request.url_http
  rw [empty] at prefixed
  revert prefixed
  decide

private theorem url_rest : request.url.drop 7 = request.host ++
    (request.portText ++ request.tail) := by
  rw [RequestParts.url, drop_scheme]

theorem tokens : Tokens request.method request.url request.protocol where
  method_nonempty := request.method_nonempty
  method_solid := request.method_solid
  url_nonempty := request.url_nonempty
  url_solid := request.url_solid
  protocol_nonempty := request.protocol_nonempty
  protocol_solid := request.protocol_solid

theorem bytes_clean : 0 ∉ request.bytes := request.tokens.bytes_clean request.rest_clean

/-- The words of the request are the three parts of its first line. -/
theorem words : firstWords 3 request.bytes = [request.method, request.url, request.protocol] :=
  request.tokens.words request.rest

theorem fits : Fits (firstWords 3 request.bytes) :=
  request.words ▸ fits_three (Nat.lt_succ_of_le request.method_short)
    (Nat.lt_succ_of_le request.url_short) (Nat.lt_succ_of_le request.protocol_short)

private theorem host_bytes : ∀ byte ∈ request.host, byte ≠ 58 ∧ byte ≠ 47 := by
  intro byte member
  have inside := request.host_plain byte member
  simp only [inHost, Bool.and_eq_true, decide_eq_true_eq] at inside
  exact ⟨inside.1.1.1.1, inside.1.1.1.2⟩

/-- The path starts where the authority ends. -/
theorem tail_stops (accepts : UInt8 → Bool) (slash : accepts 47 = false) :
    Stops accepts request.tail := by
  intro byte first
  rcases request.tail_slash with empty | slashed
  · simp [empty] at first
  · have same : byte = 47 := by simpa [slashed, eq_comm] using first
    rw [same]
    exact slash

theorem target : ∃ port, parsedTarget request.url = some (request.host, port) ∧
    port.toInt = request.portValue := by
  have plain : ∀ byte ∈ request.host, notColonSlash byte = true := by
    intro byte member
    simpa [notColonSlash] using request.host_bytes byte member
  rw [parsedTarget, if_pos request.url_http, url_rest]
  cases port : request.port with
  | some numeral =>
    refine ⟨toInt (digitsValue numeral.digits), ?_, ?_⟩
    · rw [RequestParts.portText, port]
      exact urlTarget_port request.host_nonempty request.host_short plain numeral.nonempty
        numeral.numeral (request.tail_stops isDigit (by decide))
    · rw [RequestParts.portValue, port, toInt_small (by have := numeral.small; omega)]
  | none =>
    refine ⟨80, ?_, ?_⟩
    · have slashed := request.tail_stops notSlash (by decide)
      have alone : ((request.host ++ request.tail).take 255).takeWhile notSlash = request.host := by
        refine slashed.scanset (fun byte member => ?_) request.host_short
        simpa [notSlash] using (request.host_bytes byte member).2
      have noPort : request.tail.head? ≠ some 58 := by
        rcases request.tail_slash with empty | slashed <;> simp [*]
      rw [RequestParts.portText, port]
      exact urlTarget_host request.host_nonempty request.host_short plain noPort alone
    · rw [RequestParts.portValue, port]
      decide

theorem forwarded_path : forwardedPath (request.url.drop 7) = request.path := by
  have noSlash : ∀ byte ∈ request.host ++ request.portText, byte ≠ 47 := by
    intro byte member
    rcases List.mem_append.mp member with host | port
    · exact (request.host_bytes byte host).2
    · intro same
      have written := request.portText_bytes byte port
      rw [same] at written
      revert written
      decide
  rw [url_rest, ← List.append_assoc, forwardedPath, RequestParts.path]
  rcases request.tail_slash with empty | slashed
  · have absent : 47 ∉ request.host ++ request.portText ++ request.tail := by
      simp only [empty, List.append_nil]
      exact fun member => noSlash 47 member rfl
    rw [if_neg absent, if_pos empty]
  · have nonempty : request.tail ≠ [] := by
      intro empty
      simp [empty] at slashed
    have present : 47 ∈ request.host ++ request.portText ++ request.tail :=
      List.mem_append_right _ (List.mem_of_mem_head? slashed)
    rw [if_pos present, if_neg nonempty]
    refine (request.tail_stops _ (by decide)).dropWhile_append fun byte member => ?_
    simpa using noSlash byte member

/-- The proxy reads the host and the port of a well-formed request, asks for the
port in canonical decimal, and sends the request with the path in place of the
URL and with nothing cut off. -/
theorem request_rewritten (holds : Holds buffer.bytes request.bytes) (locals : Locals) :
    (∃ parsed, parseHttpRequest buffer locals.parsed locals.hostname = .ok parsed ∧
      parsed.accepted = true ∧ Holds parsed.hostname.bytes request.host ∧
      parsed.port.toInt = request.portValue ∧
      connectToTargetServer parsed.hostname parsed.port locals.portStr =
        .ok (request.host, decimalText request.portValue)) ∧
    forwardRequest buffer locals.forwarded locals.modifiedRequest =
      .ok (some request.rewritten) := by
  obtain ⟨read, scanned, _, url, _⟩ := RequestLine.read_ok holds request.fits locals.parsed
  obtain ⟨forwarded, rescanned, method, again, protocol⟩ :=
    RequestLine.read_ok holds request.fits locals.forwarded
  rw [request.words] at url method again protocol
  obtain ⟨port, named, value⟩ := request.target
  refine ⟨?_, ?_⟩
  · obtain ⟨parsed, ran, agrees⟩ := parseHttpRequest_eq scanned url locals.hostname
    rw [named] at agrees
    obtain ⟨accepted, host, same⟩ := agrees
    have small : request.portValue < 10 ^ (4 + 1) := by
      rw [RequestParts.portValue]
      split
      · rename_i numeral _
        have := numeral.small
        omega
      · decide
    refine ⟨parsed, ran, accepted, host, by rw [same, value], ?_⟩
    rw [connectToTargetServer_eq host, same, value,
      List.take_of_length_le (decimalText_length _ small)]
  · have after : afterLine request.bytes = request.rest := request.tokens.afterLine_eq request.rest
    have line : forwardedLine request.method request.url request.protocol =
        request.method ++ ascii " " ++ request.path ++ ascii " " ++ request.protocol := by
      rw [forwardedLine, request.forwarded_path]
    have room : (forwardedLine request.method request.url request.protocol).length + 2 +
        (afterLine request.bytes).length < bufferSize :=
      request.tokens.room request.rest request.url_http holds.length_lt
    rw [forwardRequest_eq rescanned holds method again protocol request.url_http room, line, after]
    rfl

/-- A request with a port, and with colons and slashes in its path. -/
def sample : ProxiedRequest where
  method := ascii "GET"
  host := ascii "ex.org"
  port := some ⟨ascii "8080", by decide, List.all_eq_true.mp (by decide), by decide, by decide⟩
  tail := ascii "/a:b/c"
  protocol := ascii "HTTP/1.1"
  rest := ascii "Host: ex.org\r\n\r\n"
  method_nonempty := by decide
  method_solid := by decide
  method_short := by decide
  host_nonempty := by decide
  host_solid := by decide
  host_plain := List.all_eq_true.mp (by decide)
  host_short := by decide
  tail_solid := by decide
  tail_slash := by decide
  url_short := by decide
  protocol_nonempty := by decide
  protocol_solid := by decide
  protocol_short := by decide
  rest_clean := by decide
  length := by decide

theorem request_rewritten_sample :
    let buffer := CharArray.ofText bufferSize sample.bytes (Nat.lt_succ_of_le sample.length)
    (∃ parsed, parseHttpRequest buffer Locals.clear.parsed Locals.clear.hostname = .ok parsed ∧
      parsed.accepted = true ∧ Holds parsed.hostname.bytes (ascii "ex.org") ∧
      parsed.port.toInt = (8080 : Nat) ∧
      connectToTargetServer parsed.hostname parsed.port Locals.clear.portStr =
        .ok (ascii "ex.org", decimalText (8080 : Nat))) ∧
    forwardRequest buffer Locals.clear.forwarded Locals.clear.modifiedRequest =
      .ok (some (ascii "GET /a:b/c HTTP/1.1\r\nHost: ex.org\r\n\r\n")) :=
  sample.request_rewritten (holds_ofText sample.bytes_clean _) Locals.clear

end ProxiedRequest

end RequestProxy.Proxy
