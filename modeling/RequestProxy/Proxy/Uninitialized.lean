import RequestProxy.Proxy.HttpCalls

namespace RequestProxy.Proxy

open LibC

variable {buffer : CharArray bufferSize} {text url protocol : List UInt8}
variable {hostname : CharArray 256} {modifiedRequest : CharArray bufferSize}

/-- What the caller of `parse_http_request` relies on: the hostname and the port
of a request that is accepted. -/
def Parsed.answer (parsed : Parsed) : Except Fault (Option (List UInt8 × Int32)) := do
  if parsed.accepted then return some (← readString parsed.hostname.bytes, parsed.port)
  else return none

/-- Both functions do the same for any two contents of their arrays. -/
def Determined (buffer : CharArray bufferSize) (hostname : CharArray 256)
    (modifiedRequest : CharArray bufferSize) : Prop :=
  ∀ first second : RequestLine,
    (parseHttpRequest buffer first hostname >>= Parsed.answer) =
        (parseHttpRequest buffer second hostname >>= Parsed.answer) ∧
      forwardRequest buffer first modifiedRequest = forwardRequest buffer second modifiedRequest

/-- There is a URL, and a protocol where the URL is one that is forwarded. -/
def Complete (words : List (List UInt8)) : Prop :=
  ∃ url, words[1]? = some url ∧ (ascii "http://" <+: url → words.length = 3)

private theorem Parsed.Agrees.answer_eq {parsed : Parsed} (agrees : parsed.Agrees target) :
    parsed.answer = .ok target := by
  cases target with
  | none =>
    have rejected : parsed.accepted = false := agrees
    simp only [Parsed.answer, rejected, Bool.false_eq_true, if_false]
    rfl
  | some answer =>
    obtain ⟨accepted, holds, port⟩ := agrees
    simp only [Parsed.answer, accepted, if_true, holds.readString_eq, port]
    rfl

/-- The answer for the URL that is in the array when the request line is split. -/
theorem parse_answer_eq {line read : RequestLine} (scanned : line.read buffer = .ok read)
    (holds : Holds read.url.bytes url) (hostname : CharArray 256) :
    (parseHttpRequest buffer line hostname >>= Parsed.answer) = .ok (parsedTarget url) := by
  obtain ⟨parsed, ran, agrees⟩ := parseHttpRequest_eq scanned holds hostname
  rw [ran, ok_bind]
  exact agrees.answer_eq

/-- When all three words are there, nothing depends on what the arrays held. -/
theorem read_three (holds : Holds buffer.bytes text) (fits : Fits (firstWords 3 text))
    (words : firstWords 3 text = [m, u, p]) (line : RequestLine) :
    ∃ read, line.read buffer = .ok read ∧ read.Contains m u p := by
  obtain ⟨read, scanned, method, url, protocol⟩ := RequestLine.read_ok holds fits line
  rw [words] at method url protocol
  exact ⟨read, scanned, method, url, protocol⟩

theorem determined_of_complete (holds : Holds buffer.bytes text)
    (fits : Fits (firstWords 3 text)) (complete : Complete (firstWords 3 text))
    (hostname : CharArray 256) (modifiedRequest : CharArray bufferSize) :
    Determined buffer hostname modifiedRequest := by
  obtain ⟨url, found, protocol⟩ := complete
  intro first second
  obtain ⟨read, scanned, urlHolds⟩ := read_url holds fits found first
  obtain ⟨again, rescanned, urlAgain⟩ := read_url holds fits found second
  constructor
  · rw [parse_answer_eq scanned urlHolds, parse_answer_eq rescanned urlAgain]
  · by_cases http : ascii "http://" <+: url
    · obtain ⟨m, u, p, words⟩ := List.length_eq_three.mp (protocol http)
      have same : u = url := by simpa [words] using found
      subst same
      obtain ⟨read, scanned, contains⟩ := read_three holds fits words first
      obtain ⟨again, rescanned, containsAgain⟩ := read_three holds fits words second
      rw [forwardRequest_cut scanned holds contains.method contains.url contains.protocol http,
        forwardRequest_cut rescanned holds containsAgain.method containsAgain.url
          containsAgain.protocol http]
    · rw [forwardRequest_refused scanned urlHolds http,
        forwardRequest_refused rescanned urlAgain http]

/-- The arrays as an earlier request may have left them. -/
def RequestLine.leftBy (url protocol : List UInt8) (urlFits : url.length < 1024)
    (protocolFits : protocol.length < 10) : RequestLine :=
  ⟨.ofText 10 [] (by decide), .ofText 1024 url urlFits, .ofText 10 protocol protocolFits⟩

theorem leftBy_contains (urlClean : 0 ∉ url) (protocolClean : 0 ∉ protocol)
    (urlFits : url.length < 1024) (protocolFits : protocol.length < 10) :
    (RequestLine.leftBy url protocol urlFits protocolFits).Contains [] url protocol :=
  ⟨holds_ofText (by decide) (by decide), holds_ofText urlClean urlFits,
    holds_ofText protocolClean protocolFits⟩

private theorem parse_stale_url (holds : Holds buffer.bytes text) (fits : Fits (firstWords 3 text))
    (missing : (firstWords 3 text)[1]? = none) {line : RequestLine}
    (before : line.Contains m url protocol) (hostname : CharArray 256) :
    (parseHttpRequest buffer line hostname >>= Parsed.answer) = .ok (parsedTarget url) := by
  obtain ⟨read, scanned, contains⟩ := before.read holds fits
  rw [missing] at contains
  exact parse_answer_eq scanned contains.url hostname

private theorem undetermined_url (holds : Holds buffer.bytes text) (fits : Fits (firstWords 3 text))
    (missing : (firstWords 3 text)[1]? = none) : ¬Determined buffer hostname modifiedRequest := by
  intro determined
  have first := leftBy_contains (by decide : 0 ∉ ascii "http://a") (by decide : 0 ∉ ascii "")
    (by decide) (by decide)
  have second := leftBy_contains (by decide : 0 ∉ ascii "http://b") (by decide : 0 ∉ ascii "")
    (by decide) (by decide)
  have same := calc Except.ok (parsedTarget (ascii "http://a"))
    _ = _ := (parse_stale_url holds fits missing first hostname).symm
    _ = _ := (determined _ _).1
    _ = _ := parse_stale_url holds fits missing second hostname
  revert same
  decide

private theorem forward_stale_protocol (holds : Holds buffer.bytes text)
    (words : firstWords 3 text = [m, u]) (fits : Fits (firstWords 3 text))
    (http : ascii "http://" <+: u) {line : RequestLine} (before : line.Contains m₀ u₀ protocol)
    (modifiedRequest : CharArray bufferSize) :
    forwardRequest buffer line modifiedRequest = .ok (some
      ((forwardedLine m u protocol ++ ascii "\r\n" ++ afterLine text).take (bufferSize - 1))) := by
  obtain ⟨read, scanned, contains⟩ := before.read holds fits
  rw [words] at contains
  exact forwardRequest_cut scanned holds contains.method contains.url contains.protocol http
    modifiedRequest

private theorem take_differs {before : List UInt8} (early : before.length < count)
    (different : a ≠ b) : (before ++ a :: rest).take count ≠ (before ++ b :: after).take count := by
  intro same
  have byte := congrArg (fun bytes => bytes[before.length]?) same
  exact different (by simpa [List.getElem?_take, early] using byte)

private theorem undetermined_protocol (holds : Holds buffer.bytes text)
    (fits : Fits (firstWords 3 text))
    (words : firstWords 3 text = [m, u]) (http : ascii "http://" <+: u) :
    ¬Determined buffer hostname modifiedRequest := by
  intro determined
  have first := leftBy_contains (by decide : 0 ∉ ascii "") (by decide : 0 ∉ ascii "1")
    (by decide) (by decide)
  have second := leftBy_contains (by decide : 0 ∉ ascii "") (by decide : 0 ∉ ascii "2")
    (by decide) (by decide)
  have same := calc
    _ = _ := (forward_stale_protocol holds words fits http first modifiedRequest).symm
    _ = _ := (determined _ _).2
    _ = _ := forward_stale_protocol holds words fits http second modifiedRequest
  have sent := Option.some.inj (Except.ok.inj same)
  -- the protocol stands before the place where a long request is cut off
  have early : (m ++ ascii " " ++ forwardedPath (u.drop 7) ++ ascii " ").length < bufferSize - 1 := by
    have method := fits.method m (by simp [words])
    have url := fits.url u (by simp [words])
    have path := forwardedPath_length (u.drop 7)
    have size : bufferSize = 4096 := rfl
    simp only [List.length_append, List.length_drop, space_length] at path ⊢
    omega
  apply take_differs early (by decide : (49 : UInt8) ≠ 50)
  simpa [forwardedLine, ascii] using sent

theorem short_request_undetermined :
    ¬∀ (text : List UInt8) (buffer : CharArray bufferSize) (hostname : CharArray 256)
      (modifiedRequest : CharArray bufferSize), Holds buffer.bytes text →
        Fits (firstWords 3 text) → Determined buffer hostname modifiedRequest := by
  intro determined
  have words : firstWords 3 (ascii "GET\r\n\r\n") = [ascii "GET"] := by decide
  have holds : Holds (CharArray.ofText bufferSize (ascii "GET\r\n\r\n") (by decide)).bytes
      (ascii "GET\r\n\r\n") := holds_ofText (by decide) (by decide)
  have fits : Fits (firstWords 3 (ascii "GET\r\n\r\n")) := by
    rw [words]
    constructor <;> simp [ascii]
  have missing : (firstWords 3 (ascii "GET\r\n\r\n"))[1]? = none := by rw [words]; rfl
  exact undetermined_url holds fits missing (determined _ _ (.zero 256) (.zero bufferSize) holds fits)

/-- The outcome depends on nothing but the request just when the request has a
URL, and a protocol if the URL is to be forwarded. -/
theorem determined_iff (holds : Holds buffer.bytes text) (fits : Fits (firstWords 3 text))
    (hostname : CharArray 256) (modifiedRequest : CharArray bufferSize) :
    Determined buffer hostname modifiedRequest ↔ Complete (firstWords 3 text) := by
  constructor
  · intro determined
    cases found : (firstWords 3 text)[1]? with
    | none => exact absurd determined (undetermined_url holds fits found)
    | some url =>
      refine ⟨url, found, fun http => ?_⟩
      by_contra short
      have bound := firstWords_length 3 text
      obtain ⟨inside, _⟩ := List.getElem?_eq_some_iff.mp found
      obtain ⟨m, u, words⟩ := List.length_eq_two.mp (by omega : (firstWords 3 text).length = 2)
      have same : u = url := by simpa [words] using found
      exact undetermined_protocol holds fits words (same ▸ http) determined
  · intro complete
    exact determined_of_complete holds fits complete hostname modifiedRequest

theorem determined_iff_sample :
    Determined (CharArray.ofText bufferSize (ascii "GET http://h/ HTTP/1.1\r\n\r\n") (by decide))
        (.zero 256) (.zero bufferSize) ↔
      Complete (firstWords 3 (ascii "GET http://h/ HTTP/1.1\r\n\r\n")) := by
  have words : firstWords 3 (ascii "GET http://h/ HTTP/1.1\r\n\r\n") =
      [ascii "GET", ascii "http://h/", ascii "HTTP/1.1"] := by decide
  apply determined_iff (holds_ofText (by decide) (by decide))
  rw [words]
  exact fits_three (by decide) (by decide) (by decide)

end RequestProxy.Proxy
