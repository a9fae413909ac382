import RequestProxy.Proxy.Chaining
import RequestProxy.Proxy.Uninitialized

namespace RequestProxy.Proxy

open LibC

variable {segment text m u p : List UInt8} {buffer : CharArray bufferSize} {locals : Locals}

/-- The string that a segment leaves in the buffer. -/
def receivedText (segment : List UInt8) : List UInt8 :=
  (segment.take (bufferSize - 1)).takeWhile (· ≠ 0)

/-- What becomes of a text with these three words in its first line. -/
def decision (text method url protocol : List UInt8) : Outcome :=
  match parsedTarget url with
  | some (host, port) => .handled host ((decimalText port.toInt).take 5)
      (some ((forwardedLine method url protocol ++ ascii "\r\n" ++ afterLine text).take
        (bufferSize - 1)))
  | none => .rejected

/-- The words of a request that are missing are not needed. -/
def Decided (words : List (List UInt8)) : Prop :=
  ∃ url, words[1]? = some url ∧ (parsedTarget url ≠ none → words.length = 3)

private theorem holds_takeWhile (bytes rest : List UInt8) :
    Holds (bytes ++ 0 :: rest) (bytes.takeWhile (· ≠ 0)) := by
  induction bytes with
  | nil => exact ⟨by simp, rest, rfl⟩
  | cons byte bytes ih =>
    by_cases zero : byte = 0
    · exact ⟨by simp [zero], bytes ++ 0 :: rest, by simp [zero]⟩
    · obtain ⟨clean, after, split⟩ := ih
      have kept : (byte :: bytes).takeWhile (· ≠ 0) = byte :: bytes.takeWhile (· ≠ 0) := by
        simp [zero]
      rw [kept]
      exact ⟨by simpa [Ne.symm zero] using clean, after, by rw [List.cons_append, split]; rfl⟩

private theorem receive_text (nonempty : segment ≠ []) (more : List (List UInt8)) :
    ∃ buffer, receiveClientRequest (segment :: more) = .ok (some buffer) ∧
      Holds buffer.bytes (receivedText segment) := by
  have bound := List.length_take_le (bufferSize - 1) segment
  have size : bufferSize = 4096 := rfl
  obtain ⟨buffer, stored, contents⟩ := store_ok (CharArray.zero bufferSize)
    (by omega : 0 + (segment.take (bufferSize - 1)).length ≤ bufferSize)
  have some : (segment.take (bufferSize - 1)).length ≠ 0 := by
    simpa [size] using nonempty
  refine ⟨buffer, ?_, ?_⟩
  · simp only [receiveClientRequest, recv, List.headD_cons, some, if_false, stored]
    rfl
  · have room : bufferSize - (segment.take (bufferSize - 1)).length =
        bufferSize - (segment.take (bufferSize - 1)).length - 1 + 1 := by omega
    have padded : buffer.bytes = segment.take (bufferSize - 1) ++
        0 :: List.replicate (bufferSize - (segment.take (bufferSize - 1)).length - 1) 0 := by
      rw [contents, ← List.replicate_succ, ← room]
      simp [CharArray.zero]
    rw [padded]
    exact holds_takeWhile _ _

theorem handle_received {segments : List (List UInt8)}
    (received : receiveClientRequest segments = .ok (some buffer)) (locals : Locals) :
    handleClientRequest segments locals = handleBuffer buffer locals := by
  rw [handleClientRequest, received, ok_bind]

private theorem handle_words {read reread : RequestLine} (holds : Holds buffer.bytes text)
    (scanned : locals.parsed.read buffer = .ok read) (url : Holds read.url.bytes u)
    (rescanned : locals.forwarded.read buffer = .ok reread)
    (contains : parsedTarget u ≠ none → reread.Contains m u p) :
    handleBuffer buffer locals = .ok (decision text m u p) := by
  obtain ⟨parsed, ran, agrees⟩ := parseHttpRequest_eq scanned url locals.hostname
  cases target : parsedTarget u with
  | none =>
    rw [target] at agrees
    have rejected : parsed.accepted = false := agrees
    simp only [handleBuffer, ran, ok_bind, rejected, Bool.false_eq_true, if_false, decision, target]
    rfl
  | some named =>
    rw [target] at agrees
    obtain ⟨accepted, hostname, same⟩ := agrees
    obtain ⟨method, again, protocol⟩ := contains (by simp [target])
    have connects := connectToTargetServer_eq hostname parsed.port locals.portStr
    have sent := forwardRequest_cut rescanned holds method again protocol
      (parsedTarget_some target) locals.modifiedRequest
    rw [same] at connects
    simp only [handleBuffer, ran, ok_bind, accepted, if_true, same, connects, sent, decision,
      target]
    rfl

theorem handle_decided (holds : Holds buffer.bytes text) (fits : Fits (firstWords 3 text))
    (decided : Decided (firstWords 3 text)) (locals : Locals) :
    handleBuffer buffer locals = .ok (decision text ((firstWords 3 text)[0]?.getD [])
      ((firstWords 3 text)[1]?.getD []) ((firstWords 3 text)[2]?.getD [])) := by
  obtain ⟨u, second, needed⟩ := decided
  obtain ⟨read, scanned, url⟩ := read_url holds fits second locals.parsed
  obtain ⟨again, rescanned, method, urlAgain, protocol⟩ :=
    RequestLine.read_ok holds fits locals.forwarded
  rw [second, Option.getD_some]
  refine handle_words holds scanned url rescanned fun target => ?_
  obtain ⟨m, v, p, words⟩ := List.length_eq_three.mp (needed target)
  rw [words] at method urlAgain protocol second ⊢
  cases second
  exact ⟨method, urlAgain, protocol⟩

theorem handle_segment (nonempty : segment ≠ []) (fits : Fits (firstWords 3 (receivedText segment)))
    (decided : Decided (firstWords 3 (receivedText segment))) (more : List (List UInt8))
    (locals : Locals) :
    handleClientRequest (segment :: more) locals =
      .ok (decision (receivedText segment) ((firstWords 3 (receivedText segment))[0]?.getD [])
        ((firstWords 3 (receivedText segment))[1]?.getD [])
        ((firstWords 3 (receivedText segment))[2]?.getD [])) := by
  obtain ⟨buffer, received, holds⟩ := receive_text nonempty more
  rw [handle_received received]
  exact handle_decided holds fits decided locals

/-- The arrays after a request with this URL and this protocol. -/
def Locals.leftBy (url protocol : List UInt8) (urlFits : url.length < 1024)
    (protocolFits : protocol.length < 10) : Locals :=
  { Locals.clear with
    parsed := .leftBy url protocol urlFits protocolFits
    forwarded := .leftBy url protocol urlFits protocolFits }

private theorem handle_leftBy (holds : Holds buffer.bytes text) (fits : Fits (firstWords 3 text))
    (urlClean : 0 ∉ u) (protocolClean : 0 ∉ p) (urlFits : u.length < 1024)
    (protocolFits : p.length < 10) :
    handleBuffer buffer (.leftBy u p urlFits protocolFits) =
      .ok (decision text ((firstWords 3 text)[0]?.getD [])
        ((firstWords 3 text)[1]?.getD u) ((firstWords 3 text)[2]?.getD p)) := by
  have before := leftBy_contains urlClean protocolClean urlFits protocolFits
  obtain ⟨read, scanned, contains⟩ := before.read holds fits
  exact handle_words holds scanned contains.url scanned fun _ => contains

/-- The protocol stands before the place where a long message is cut off. -/
theorem decision_protocol (method : m.length < 10) (url : u.length < 1024)
    (target : parsedTarget u ≠ none) :
    decision text m u (ascii "1") ≠ decision text m u (ascii "2") := by
  obtain ⟨named, found⟩ := Option.ne_none_iff_exists'.mp target
  intro same
  simp only [decision, found, Outcome.handled.injEq, Option.some.injEq, true_and] at same
  have early : (m ++ ascii " " ++ forwardedPath (u.drop 7) ++ ascii " ").length <
      bufferSize - 1 := by
    have path := forwardedPath_length (u.drop 7)
    have size : bufferSize = 4096 := rfl
    simp only [List.length_append, List.length_drop, space_length] at path ⊢
    omega
  have byte := congrArg (fun message =>
    message[(m ++ ascii " " ++ forwardedPath (u.drop 7) ++ ascii " ").length]?) same
  simp only [List.getElem?_take, early, if_true, forwardedLine] at byte
  simp [ascii] at byte

private theorem stale_differs (holds : Holds buffer.bytes text) (fits : Fits (firstWords 3 text))
    (missing : ¬Decided (firstWords 3 text)) :
    ∃ first second : Locals, handleBuffer buffer first ≠ handleBuffer buffer second := by
  cases second : (firstWords 3 text)[1]? with
  | none =>
    refine ⟨.leftBy (ascii "http://a") [] (by decide) (by decide),
      .leftBy (ascii "http://b") [] (by decide) (by decide), fun same => ?_⟩
    rw [handle_leftBy holds fits (by decide) (by decide),
      handle_leftBy holds fits (by decide) (by decide), second] at same
    have one : parsedTarget (ascii "http://a") = some (ascii "a", 80) := by decide
    have two : parsedTarget (ascii "http://b") = some (ascii "b", 80) := by decide
    simp only [decision, Option.getD_none, one, two, Except.ok.injEq, Outcome.handled.injEq] at same
    exact absurd same.1 (by decide)
  | some u =>
    have target : parsedTarget u ≠ none ∧ (firstWords 3 text).length ≠ 3 := by
      constructor
      · exact fun none => missing ⟨u, second, fun found => absurd none found⟩
      · exact fun three => missing ⟨u, second, fun _ => three⟩
    have bound := firstWords_length 3 text
    obtain ⟨inside, _⟩ := List.getElem?_eq_some_iff.mp second
    obtain ⟨m, v, words⟩ :=
      List.length_eq_two.mp (by omega : (firstWords 3 text).length = 2)
    have method : m.length < 10 := fits.method m (by rw [words]; rfl)
    have url : u.length < 1024 := fits.url u second
    refine ⟨.leftBy [] (ascii "1") (by decide) (by decide),
      .leftBy [] (ascii "2") (by decide) (by decide), fun same => ?_⟩
    rw [handle_leftBy holds fits (by decide) (by decide),
      handle_leftBy holds fits (by decide) (by decide), words] at same
    rw [words] at second
    cases second
    exact decision_protocol method url target.1 (Except.ok.inj same)

/-- What `handle_client_request` does with any request, by the text that its first
segment leaves in the buffer. Words that are too long make it leave an array;
otherwise the outcome depends on the text alone just when no word is missing that
is needed, and is then the decision on that text. -/
theorem request_decided (nonempty : segment ≠ []) (more : List (List UInt8)) :
    (¬Fits (firstWords 3 (receivedText segment)) → ∀ locals,
      handleClientRequest (segment :: more) locals = .error .overflow) ∧
    (Fits (firstWords 3 (receivedText segment)) →
      ((∀ first second, handleClientRequest (segment :: more) first =
          handleClientRequest (segment :: more) second) ↔
        Decided (firstWords 3 (receivedText segment))) ∧
      (Decided (firstWords 3 (receivedText segment)) → ∀ locals,
        handleClientRequest (segment :: more) locals =
          .ok (decision (receivedText segment)
            ((firstWords 3 (receivedText segment))[0]?.getD [])
            ((firstWords 3 (receivedText segment))[1]?.getD [])
            ((firstWords 3 (receivedText segment))[2]?.getD [])))) := by
  obtain ⟨buffer, received, holds⟩ := receive_text nonempty more
  have handles := handle_received received
  refine ⟨fun long locals => ?_, fun fits => ⟨?_, fun decided locals =>
    handle_segment nonempty fits decided more locals⟩⟩
  · rw [handles, handleBuffer, parseHttpRequest_fault
      (RequestLine.read_overflow holds long locals.parsed)]
    rfl
  · constructor
    · intro same
      by_contra missing
      obtain ⟨first, second, differ⟩ := stale_differs holds fits missing
      exact differ ((handles first).symm.trans ((same first second).trans (handles second)))
    · intro decided first second
      rw [handles, handles, handle_decided holds fits decided, handle_decided holds fits decided]

/-- A request for the root of a host. -/
theorem request_decided_sample :
    handleClientRequest [ascii "GET http://h HTTP/1.1\r\n\r\n"] Locals.clear =
      .ok (.handled (ascii "h") (ascii "80") (some (ascii "GET / HTTP/1.1\r\n\r\n"))) := by
  have text : receivedText (ascii "GET http://h HTTP/1.1\r\n\r\n") =
      ascii "GET http://h HTTP/1.1\r\n\r\n" := by decide
  have words : firstWords 3 (ascii "GET http://h HTTP/1.1\r\n\r\n") =
      [ascii "GET", ascii "http://h", ascii "HTTP/1.1"] := by decide
  have known := request_decided (by decide : ascii "GET http://h HTTP/1.1\r\n\r\n" ≠ []) []
  rw [text, words] at known
  have decided := (known.2 (fits_three (by decide) (by decide) (by decide))).2
    ⟨_, rfl, fun _ => rfl⟩
  rw [decided Locals.clear]
  decide

end RequestProxy.Proxy
