import RequestProxy.Proxy.RequestText

namespace RequestProxy.Proxy

open LibC

variable {buffer : CharArray bufferSize} {text piece message m u p : List UInt8}

private theorem forwardedPath_slash (rest : List UInt8) :
    ∃ tail, forwardedPath rest = 47 :: tail := by
  rw [forwardedPath]
  split
  · rename_i slash
    have left : rest.dropWhile (fun byte => decide (byte ≠ 47)) ≠ [] := by
      intro empty
      have passed := List.dropWhile_eq_nil_iff.mp empty 47 slash
      simp at passed
    obtain ⟨byte, tail, found⟩ := List.exists_cons_of_ne_nil left
    have stopped := List.head?_dropWhile_not (fun byte => decide (byte ≠ 47)) rest
    rw [found] at stopped
    have same : byte = 47 := by simpa using stopped
    exact ⟨tail, by rw [found, same]⟩
  · exact ⟨[], by decide⟩

private theorem forwardedPath_solid (solid : Solid rest) : Solid (forwardedPath rest) := by
  rw [forwardedPath]
  split
  · exact fun byte member => solid byte ((List.dropWhile_sublist _).subset member)
  · decide

private theorem forwardedLine_eq (m u p : List UInt8) :
    forwardedLine m u p = requestLine m (forwardedPath (u.drop 7)) p := rfl

private theorem afterLine_clean (clean : 0 ∉ text) : 0 ∉ afterLine text := by
  rw [afterLine]
  split
  · rename_i before after found
    exact fun member => clean (cut_eq found ▸ List.mem_append_right _ member)
  · simp

private theorem solid_word (clean : 0 ∉ text) (member : word ∈ firstWords count text) :
    Solid word := by
  obtain ⟨_, plain, inside⟩ := firstWords_solid member
  exact fun byte inWord =>
    ⟨plain byte inWord, fun zero => clean (zero ▸ inside.subset inWord)⟩

private theorem parsedTarget_slash (prefixed : url <+: 47 :: tail) : parsedTarget url = none := by
  rw [parsedTarget, if_neg]
  intro http
  have first := http.trans prefixed
  have heads := congrArg (·[0]?) (List.prefix_iff_eq_take.mp first)
  revert heads
  simp [ascii]

private theorem handle_refused (holds : Holds buffer.bytes text) (fits : Fits (firstWords 3 text))
    (second : (firstWords 3 text)[1]? = some url) (target : parsedTarget url = none)
    (locals : Locals) : handleBuffer buffer locals = .ok .rejected := by
  obtain ⟨read, scanned, contents⟩ := read_url holds fits second locals.parsed
  obtain ⟨parsed, ran, agrees⟩ := parseHttpRequest_eq scanned contents locals.hostname
  rw [target] at agrees
  have rejected : parsed.accepted = false := agrees
  simp only [handleBuffer, ran, ok_bind, rejected, Bool.false_eq_true, if_false]
  rfl

/-- A message that was forwarded, and the words of its first line. -/
structure Forwarded (m u p message : List UInt8) : Prop where
  tokens : Tokens m (forwardedPath (u.drop 7)) p
  fits : Fits [m, forwardedPath (u.drop 7), p]
  clean : 0 ∉ message
  short : message.length < bufferSize
  words : firstWords 3 message = [m, forwardedPath (u.drop 7), p]

/-- What `forward_request` makes of a request with three words. -/
theorem forwarded_words (holds : Holds buffer.bytes text) (words : firstWords 3 text = [m, u, p])
    (handled : handleBuffer buffer locals = .ok (.handled host service (some message))) :
    Forwarded m u p message := by
  obtain ⟨parsed, parses, _, _, forwards⟩ := handleBuffer_handled handled
  have fits : Fits (firstWords 3 text) := by
    by_contra long
    rw [parseHttpRequest_fault (RequestLine.read_overflow holds long locals.parsed)] at parses
    cases parses
  obtain ⟨read, scanned, method, url, protocol⟩ :=
    RequestLine.read_ok holds fits locals.forwarded
  rw [words] at method url protocol
  have http : ascii "http://" <+: u := by
    by_contra other
    rw [forwardRequest_refused scanned url other] at forwards
    cases forwards
  rw [forwardRequest_cut scanned holds method url protocol http] at forwards
  have listed : ∀ word ∈ [m, u, p], word ≠ [] ∧ Solid word := by
    intro word member
    rw [← words] at member
    exact ⟨(firstWords_solid member).1, solid_word holds.1 member⟩
  obtain ⟨tail, slash⟩ := forwardedPath_slash (u.drop 7)
  have tokens : Tokens m (forwardedPath (u.drop 7)) p :=
    ⟨(listed m (by simp)).1, (listed m (by simp)).2, by simp [slash],
      forwardedPath_solid fun byte member =>
        (listed u (by simp)).2 byte (List.mem_of_mem_drop member),
      (listed p (by simp)).1, (listed p (by simp)).2⟩
  have path := forwardedPath_length (u.drop 7)
  rw [List.length_drop] at path
  rw [words] at fits
  have methodShort : m.length < 10 := fits.method m rfl
  have urlShort : u.length < 1024 := fits.url u rfl
  have protocolShort : p.length < 10 := fits.protocol p rfl
  -- the first line is far from the end of the array
  have room : (requestLine m (forwardedPath (u.drop 7)) p ++ ascii "\r\n").length ≤
      bufferSize - 1 := by
    have size : bufferSize = 4096 := rfl
    simp only [requestLine, List.length_append, space_length, ending_length]
    omega
  have same : message = requestLine m (forwardedPath (u.drop 7)) p ++ ascii "\r\n" ++
      (afterLine text).take
        (bufferSize - 1 - (requestLine m (forwardedPath (u.drop 7)) p ++ ascii "\r\n").length) := by
    rw [← Option.some.inj (Except.ok.inj forwards), forwardedLine_eq, List.take_append,
      List.take_of_length_le room]
  refine ⟨tokens, fits_three methodShort (by omega) protocolShort, ?_, ?_, ?_⟩
  · rw [same]
    exact tokens.bytes_clean fun member => afterLine_clean holds.1 (List.mem_of_mem_take member)
  · rw [← Option.some.inj (Except.ok.inj forwards), List.length_take]
    have size : bufferSize = 4096 := rfl
    omega
  · rw [same]
    exact tokens.words _

/-- A proxy that gets what a proxy has forwarded refuses it, however the message
is cut as long as the path begins in the first piece. -/
theorem forwarded_rejected (holds : Holds buffer.bytes text)
    (three : (firstWords 3 text).length = 3)
    (handled : handleBuffer buffer locals = .ok (.handled host service (some message)))
    (first : piece <+: message) (reaches : 2 ≤ (firstWords 3 piece).length)
    (onward : List (List UInt8)) (others : Locals) :
    handleClientRequest (piece :: onward) others = .ok .rejected := by
  obtain ⟨m, u, p, words⟩ : ∃ m u p, firstWords 3 text = [m, u, p] := by
    match words : firstWords 3 text, three with
    | [m, u, p], _ => exact ⟨m, u, p, rfl⟩
  have forwarded := forwarded_words holds words handled
  obtain ⟨rest, rfl⟩ := first
  have clean : 0 ∉ piece := fun member => forwarded.clean (List.mem_append_left _ member)
  have short : piece.length < bufferSize := by
    have bound := forwarded.short
    rw [List.length_append] at bound
    omega
  have fits : Fits (firstWords 3 piece) := Fits.extend (forwarded.words ▸ forwarded.fits)
  obtain ⟨url, second⟩ : ∃ url, (firstWords 3 piece)[1]? = some url :=
    ⟨_, List.getElem?_eq_getElem reaches⟩
  have prefixed := firstWords_extend 3 piece rest 1
  rw [forwarded.words, second] at prefixed
  obtain ⟨tail, slash⟩ := forwardedPath_slash (u.drop 7)
  have target : parsedTarget url = none := parsedTarget_slash (slash ▸ prefixed)
  have nonempty : piece ≠ [] := by
    rintro rfl
    simp [firstWords_nil] at reaches
  obtain ⟨received, arrives, contents⟩ := receiveClientRequest_eq clean nonempty short onward
  rw [handleClientRequest, arrives, ok_bind]
  exact handle_refused contents fits second target others

/-- The start of a forwarded request, cut in its path. -/
theorem forwarded_rejected_sample : ∃ (buffer : CharArray bufferSize) (service : List UInt8)
    (message : List UInt8), handleBuffer buffer Locals.clear =
        .ok (.handled (ascii "h") service (some message)) ∧
      ascii "GET /" <+: message ∧
      handleClientRequest [ascii "GET /", ascii " HTTP/1.1\r\n\r\n"] Locals.clear =
        .ok .rejected := by
  have clean : 0 ∉ ascii "GET http://h HTTP/1.1\r\n\r\n" := by decide
  obtain ⟨buffer, _, holds⟩ := receiveClientRequest_eq clean (by decide) (by decide) []
  have words : firstWords 3 (ascii "GET http://h HTTP/1.1\r\n\r\n") =
      [ascii "GET", ascii "http://h", ascii "HTTP/1.1"] := by decide
  have fits : Fits (firstWords 3 (ascii "GET http://h HTTP/1.1\r\n\r\n")) :=
    words ▸ fits_three (by decide) (by decide) (by decide)
  obtain ⟨parsed, parses, accepted, resolves, forwards⟩ :=
    handle_accepted (m := ascii "GET") (u := ascii "http://h") (p := ascii "HTTP/1.1") holds fits
      Locals.clear_contains Locals.clear_contains (by rw [words]; rfl) (by rw [words]; rfl)
      (by rw [words]; rfl) (by decide : parsedTarget (ascii "http://h") = some (ascii "h", 80))
      (by decide)
  obtain ⟨service, message, handled, same⟩ : ∃ service message, handleBuffer buffer Locals.clear =
      .ok (.handled (ascii "h") service (some message)) ∧
      message = ascii "GET / HTTP/1.1\r\n\r\n" := by
    simp only [handleBuffer, parses, ok_bind, accepted, if_true, resolves, forwards]
    exact ⟨_, _, rfl, by decide⟩
  have first : ascii "GET /" <+: message := by
    rw [same]
    decide
  exact ⟨buffer, service, message, handled, first,
    forwarded_rejected holds (by rw [words]; rfl) handled first (by decide) _ _⟩

end RequestProxy.Proxy
