import RequestProxy.Proxy.Target

namespace RequestProxy.Proxy

open LibC

variable {size : Nat} {text : List UInt8} {buffer : CharArray bufferSize}

/-- Every accepted request with the first line of `text` is sent to one target,
as the line that is made of three parts of that first line, and the rest of the
request follows it unchanged. -/
def LineDecides (text : List UInt8) : Prop :=
  ∃ target method url protocol, method <:+: firstLine text ∧ url <:+: firstLine text ∧
    protocol <:+: firstLine text ∧
    ∀ (buffer : CharArray bufferSize) (locals : Locals) (other : List UInt8) (parsed : Parsed),
      Holds buffer.bytes other → Fits (firstWords 3 other) → firstLine other = firstLine text →
      parseHttpRequest buffer locals.parsed locals.hostname = .ok parsed →
      parsed.accepted = true →
      connectToTargetServer parsed.hostname parsed.port locals.portStr = .ok target ∧
      forwardRequest buffer locals.forwarded locals.modifiedRequest =
        .ok (some (forwardedLine method url protocol ++ ascii "\r\n" ++ afterLine other))

private theorem accepted_target {line read : RequestLine} (scanned : line.read buffer = .ok read)
    (url : Holds read.url.bytes u)
    (parses : parseHttpRequest buffer line hostname = .ok parsed)
    (accepted : parsed.accepted = true) :
    ∃ host port, parsedTarget u = some (host, port) ∧ Holds parsed.hostname.bytes host ∧
      parsed.port = port := by
  obtain ⟨again, ran, agrees⟩ := parseHttpRequest_eq scanned url hostname
  cases Except.ok.inj (ran.symm.trans parses)
  cases found : parsedTarget u with
  | none =>
    rw [found] at agrees
    cases agrees.symm.trans accepted
  | some target =>
    rw [found] at agrees
    exact ⟨target.1, target.2, rfl, agrees.2.1, agrees.2.2⟩

/-- The words of a text are those of its first line when that has three. -/
theorem firstWords_firstLine (full : (firstWords 3 (firstLine text)).length = 3) :
    firstWords 3 text = firstWords 3 (firstLine text) := by
  obtain ⟨rest, whole, separate⟩ := firstLine_append text
  calc firstWords 3 text = firstWords 3 (firstLine text ++ rest) := by rw [← whole]
    _ = firstWords 3 (firstLine text) := firstWords_append full separate

private theorem three_words (full : (firstWords 3 text).length = 3) :
    ∃ m u p, firstWords 3 text = [m, u, p] := by
  match words : firstWords 3 text with
  | [] | [_] | [_, _] | _ :: _ :: _ :: _ :: _ => simp [words] at full
  | [m, u, p] => exact ⟨m, u, p, rfl⟩

private theorem lineDecides_of_words (full : (firstWords 3 (firstLine text)).length = 3) :
    LineDecides text := by
  obtain ⟨m, u, p, words⟩ := three_words full
  have inside : ∀ word ∈ [m, u, p], word <:+: firstLine text := by
    intro word member
    exact (firstWords_solid (words ▸ member)).2.2
  have method_inside := inside m (by simp)
  have url_inside := inside u (by simp)
  have protocol_inside := inside p (by simp)
  cases found : parsedTarget u with
  | none =>
    refine ⟨([], []), m, u, p, method_inside, url_inside, protocol_inside, fun buffer locals other parsed holds fits same parses accepted => ?_⟩
    have listed : firstWords 3 other = [m, u, p] := by
      rw [firstWords_firstLine (same ▸ full), same, words]
    obtain ⟨read, scanned, _, url, _⟩ := RequestLine.read_ok holds fits locals.parsed
    rw [listed] at url
    obtain ⟨_, _, target, _⟩ := accepted_target scanned url parses accepted
    cases found.symm.trans target
  | some target =>
    refine ⟨(target.1, (decimalText target.2.toInt).take 5), m, u, p, method_inside,
      url_inside, protocol_inside, fun buffer locals other parsed holds fits same parses accepted => ?_⟩
    have listed : firstWords 3 other = [m, u, p] := by
      rw [firstWords_firstLine (same ▸ full), same, words]
    obtain ⟨read, scanned, _, url, _⟩ := RequestLine.read_ok holds fits locals.parsed
    obtain ⟨forwarded, rescanned, method, again, protocol⟩ :=
      RequestLine.read_ok holds fits locals.forwarded
    rw [listed] at url method again protocol
    obtain ⟨host, port, named, contents, value⟩ := accepted_target scanned url parses accepted
    cases found.symm.trans named
    refine ⟨by rw [connectToTargetServer_eq contents, value], ?_⟩
    have http := parsedTarget_some found
    exact forwardRequest_eq rescanned holds method again protocol http
      (forwarded_room (same ▸ words) http holds.length_lt) locals.modifiedRequest

/-- Arrays that hold words before anything is read, the last of them `p`. -/
def stale (p : List UInt8) (fits : p.length < 10) : Locals :=
  let line : RequestLine :=
    ⟨.ofText 10 (ascii "GET") (by decide), .ofText 1024 (ascii "http://h") (by decide),
      .ofText 10 p fits⟩
  { Locals.clear with parsed := line, forwarded := line }

private theorem stale_contains (clean : 0 ∉ p) (fits : p.length < 10) :
    (stale p fits).parsed.Contains (ascii "GET") (ascii "http://h") p :=
  ⟨holds_ofText (by decide) (by decide), holds_ofText (by decide) (by decide),
    holds_ofText clean fits⟩

private theorem forward_stale (holds : Holds buffer.bytes text) (fits : Fits (firstWords 3 text))
    (few : (firstWords 3 text).length < 3)
    (accepts : ∀ u, (firstWords 3 text)[1]? = some u → (parsedTarget u).isSome = true)
    (alone : afterLine text = []) :
    ∃ start, ∀ p (short : p.length < 10), 0 ∉ p → ∃ parsed,
      parseHttpRequest buffer (stale p short).parsed (stale p short).hostname = .ok parsed ∧
      parsed.accepted = true ∧
      forwardRequest buffer (stale p short).forwarded (stale p short).modifiedRequest =
        .ok (some (start ++ p ++ ascii "\r\n")) := by
  let m := (firstWords 3 text)[0]?.getD (ascii "GET")
  let u := (firstWords 3 text)[1]?.getD (ascii "http://h")
  have accepted : (parsedTarget u).isSome = true := by
    cases second : (firstWords 3 text)[1]? with
    | none =>
      simp only [u, second, Option.getD_none]
      decide
    | some url => simpa [u, second] using accepts url second
  obtain ⟨⟨host, port⟩, found⟩ := Option.isSome_iff_exists.mp accepted
  have none : (firstWords 3 text)[2]? = none := List.getElem?_eq_none (by omega)
  refine ⟨m ++ ascii " " ++ forwardedPath (u.drop 7) ++ ascii " ", fun p short clean => ?_⟩
  have before := stale_contains clean short
  have room : (forwardedLine m u p).length + 2 + (afterLine text).length < bufferSize := by
    obtain ⟨read, _, contains⟩ := before.read holds fits
    have path := forwardedPath_length (u.drop 7)
    have methodShort : m.length < 10 := contains.method.length_lt
    have urlShort : u.length < 1024 := contains.url.length_lt
    simp only [forwardedLine, List.length_append, List.length_drop, space_length, alone,
      bufferSize, List.length_nil] at path ⊢
    omega
  obtain ⟨parsed, ran, passed, _, sent⟩ :=
    handle_accepted holds fits before before rfl rfl (by simp [none])
      found room
  refine ⟨parsed, ran, passed, ?_⟩
  rw [sent, alone, forwardedLine, List.append_nil]

/-- If the first line has less than three words, then the request that is that
line alone has no protocol of its own. -/
theorem words_of_lineDecides {locals : Locals} (holds : Holds buffer.bytes text)
    (fits : Fits (firstWords 3 text))
    (parses : parseHttpRequest buffer locals.parsed locals.hostname = .ok parsed)
    (accepted : parsed.accepted = true) (decides : LineDecides text) :
    (firstWords 3 (firstLine text)).length = 3 := by
  by_contra short
  have few : (firstWords 3 (firstLine text)).length < 3 :=
    Nat.lt_of_le_of_ne (firstWords_length 3 _) short
  obtain ⟨rest, whole, separate⟩ := firstLine_append text
  have part : firstWords 3 (firstLine text) <+: firstWords 3 text := by
    have words := firstWords_kept separate 3 (firstLine text)
    rwa [← whole] at words
  have clean : 0 ∉ firstLine text := by
    intro member
    refine holds.1 ?_
    rw [whole]
    exact List.mem_append_left _ member
  have smaller : (firstLine text).length < bufferSize := by
    have lengths := congrArg List.length whole
    have total := holds.length_lt
    rw [List.length_append] at lengths
    omega
  have lineHolds := holds_ofText clean smaller
  have lineFits : Fits (firstWords 3 (firstLine text)) := Fits.extend (whole ▸ fits)
  have accepts : ∀ u, (firstWords 3 (firstLine text))[1]? = some u →
      (parsedTarget u).isSome = true := by
    intro u second
    have listed : (firstWords 3 text)[1]? = some u := by
      obtain ⟨more, split⟩ := part
      rw [← split, List.getElem?_append_left (List.getElem?_eq_some_iff.mp second).1]
      exact second
    obtain ⟨read, scanned, url⟩ := read_url holds fits listed locals.parsed
    obtain ⟨host, port, found, _⟩ := accepted_target scanned url parses accepted
    simp [found]
  obtain ⟨start, sends⟩ := forward_stale lineHolds (lineFits) few accepts
    (afterLine_firstLine text)
  obtain ⟨target, m, u, protocol, _, _, _, decided⟩ := decides
  have sent : ∀ p (short : p.length < 10), 0 ∉ p →
      start ++ p ++ ascii "\r\n" = forwardedLine m u protocol ++ ascii "\r\n" := by
    intro p short clean
    obtain ⟨parsed, ran, passed, forwarded⟩ := sends p short clean
    obtain ⟨_, again⟩ := decided _ _ _ _ lineHolds (lineFits)
      (firstLine_firstLine text) ran passed
    rw [forwarded, afterLine_firstLine, List.append_nil] at again
    exact Option.some.inj (Except.ok.inj again)
  have one := sent (ascii "1") (by decide) (by decide)
  have two := sent (ascii "2") (by decide) (by decide)
  have same := List.append_cancel_left (List.append_cancel_right (one.trans two.symm))
  revert same
  decide

/-- A request whose first line has no protocol and whose header has a given name. -/
def unversioned (name : UInt8) : List UInt8 :=
  ascii "GET http://h\r\n" ++ name :: ascii ": v\r\n\r\n"

private theorem unversioned_sent (letter : name = 65 ∨ name = 66) :
    ∃ (buffer : CharArray bufferSize) (parsed : Parsed),
      Holds buffer.bytes (unversioned name) ∧ Fits (firstWords 3 (unversioned name)) ∧
      firstLine (unversioned name) = ascii "GET http://h" ∧
      parseHttpRequest buffer Locals.clear.parsed Locals.clear.hostname = .ok parsed ∧
      parsed.accepted = true ∧
      forwardRequest buffer Locals.clear.forwarded Locals.clear.modifiedRequest =
        .ok (some (ascii "GET / " ++ [name, 58] ++ ascii "\r\n" ++ afterLine (unversioned name))) := by
  have words : firstWords 3 (unversioned name) = [ascii "GET", ascii "http://h", [name, 58]] := by
    rcases letter with rfl | rfl <;> decide
  have clean : 0 ∉ unversioned name := by
    rcases letter with rfl | rfl <;> decide
  have short : (unversioned name).length < bufferSize := by simp [unversioned, ascii, bufferSize]
  have holds := holds_ofText clean short
  have fits : Fits (firstWords 3 (unversioned name)) :=
    words ▸ fits_three (by decide) (by decide) (by simp)
  have line : firstLine (unversioned name) = ascii "GET http://h" := by
    rcases letter with rfl | rfl <;> decide
  have before := Locals.clear_contains
  have target : parsedTarget (ascii "http://h") = some (ascii "h", 80) := by decide
  have path : forwardedPath ((ascii "http://h").drop 7) = ascii "/" := by decide
  have room : (forwardedLine (ascii "GET") (ascii "http://h") [name, 58]).length + 2 +
      (afterLine (unversioned name)).length < bufferSize := by
    rcases letter with rfl | rfl <;> decide
  obtain ⟨parsed, ran, accepted, _, sent⟩ :=
    handle_accepted holds fits before before (by rw [words]; rfl) (by rw [words]; rfl)
      (by rw [words]; rfl) target room
  refine ⟨_, parsed, holds, fits, line, ran, accepted, ?_⟩
  rw [sent, forwardedLine, path]
  simp [ascii]

/-- Two requests with the first line `GET http://h` are sent with different
first lines. -/
theorem header_consumed :
    ¬∀ (text : List UInt8) (buffer : CharArray bufferSize) (locals : Locals) (parsed : Parsed),
      Holds buffer.bytes text → Fits (firstWords 3 text) →
      parseHttpRequest buffer locals.parsed locals.hostname = .ok parsed →
      parsed.accepted = true → LineDecides text := by
  intro agree
  obtain ⟨first, parsedFirst, holds, fits, line, ran, accepted, sent⟩ :=
    unversioned_sent (.inl rfl)
  obtain ⟨second, parsedSecond, holds', fits', line', ran', accepted', sent'⟩ :=
    unversioned_sent (.inr rfl)
  obtain ⟨target, m, u, p, _, _, _, decided⟩ :=
    agree _ first Locals.clear parsedFirst holds fits ran accepted
  obtain ⟨_, one⟩ := decided first _ _ parsedFirst holds fits rfl ran accepted
  obtain ⟨_, two⟩ := decided second _ _ parsedSecond holds' fits' (line'.trans line.symm) ran'
    accepted'
  have headers : afterLine (unversioned 65) = ascii "A: v\r\n\r\n" ∧
      afterLine (unversioned 66) = ascii "B: v\r\n\r\n" := by decide
  rw [headers.1] at sent one
  rw [headers.2] at sent' two
  have same := (Option.some.inj (Except.ok.inj (one.symm.trans sent)))
  have other := (Option.some.inj (Except.ok.inj (two.symm.trans sent')))
  rw [List.append_assoc, List.append_assoc _ (ascii "\r\n")] at same other
  have equal := (List.append_inj_left' same (by decide)).symm.trans
    (List.append_inj_left' other (by decide))
  revert equal
  decide

/-- For an accepted request, the two readings agree just when its first line has
three words. -/
theorem first_line_decides_iff {locals : Locals} (holds : Holds buffer.bytes text)
    (fits : Fits (firstWords 3 text))
    (parses : parseHttpRequest buffer locals.parsed locals.hostname = .ok parsed)
    (accepted : parsed.accepted = true) :
    LineDecides text ↔ (firstWords 3 (firstLine text)).length = 3 :=
  ⟨words_of_lineDecides holds fits parses accepted, lineDecides_of_words⟩

theorem first_line_decides_iff_sample : ¬LineDecides (unversioned 65) := by
  obtain ⟨buffer, parsed, holds, fits, _, ran, accepted, _⟩ := unversioned_sent (.inl rfl)
  rw [first_line_decides_iff holds fits ran accepted]
  decide

end RequestProxy.Proxy
