import RequestProxy.Proxy.Rewrite

/-! The way a request is cut into segments. `receive_client_request` calls
`recv` once, so that the proxy acts on the first segment alone. -/

namespace RequestProxy.Proxy

open LibC

variable {buffer : CharArray bufferSize} {text : List UInt8}

structure HttpParts where
  method : List UInt8
  location : List UInt8
  protocol : List UInt8
  headers : List (List UInt8)
  body : List UInt8

namespace HttpParts

variable (parts : HttpParts)

def url : List UInt8 := ascii "http://" ++ parts.location

def line : List UInt8 := requestLine parts.method parts.url parts.protocol

def rest : List UInt8 :=
  parts.headers.flatMap (fun header => header ++ ascii "\r\n") ++ ascii "\r\n" ++ parts.body

def bytes : List UInt8 := parts.line ++ ascii "\r\n" ++ parts.rest

end HttpParts

/-- A request with an absolute URL, headers and a blank line. -/
structure HttpRequest extends HttpParts where
  method_nonempty : method ≠ []
  method_solid : Solid method
  location_solid : Solid location
  location_host : location ≠ [] ∧ location.head? ≠ some 47
  protocol_nonempty : protocol ≠ []
  protocol_solid : Solid protocol
  headers_lines : ∀ header ∈ headers, header ≠ [] ∧ 0 ∉ header ∧ 13 ∉ header ∧ 10 ∉ header
  body_clean : 0 ∉ body
  length : toHttpParts.bytes.length ≤ 4095

/-- The segments of a text, in order. -/
structure Cuts (text : List UInt8) (segments : List (List UInt8)) : Prop where
  whole : segments.flatten = text
  nonempty : ∀ segment ∈ segments, segment ≠ []

/-- All ways to cut a text end in the same decision, with the same target and
the same bytes sent to it. -/
def SegmentationIndependent (text : List UInt8) : Prop :=
  ∀ locals first second, Cuts text first → Cuts text second →
    handleClientRequest first locals = handleClientRequest second locals

/-- The message for the target, when the arrays are clear. -/
def clearMessage (text : List UInt8) : List UInt8 :=
  forwardedLine ((firstWords 3 text)[0]?.getD []) ((firstWords 3 text)[1]?.getD [])
    ((firstWords 3 text)[2]?.getD []) ++ ascii "\r\n" ++ afterLine text

private theorem forwardedPath_extend (rest more : List UInt8) :
    (forwardedPath rest).length ≤ (forwardedPath (rest ++ more)).length := by
  by_cases slash : 47 ∈ rest
  · have reached : rest.dropWhile (fun byte => decide (byte ≠ 47)) ≠ [] := by
      intro none
      simpa using List.dropWhile_eq_nil_iff.mp none 47 slash
    have longer : (rest ++ more).dropWhile (fun byte => decide (byte ≠ 47)) =
        rest.dropWhile (fun byte => decide (byte ≠ 47)) ++ more := by
      rw [List.dropWhile_append, if_neg (by rwa [List.isEmpty_iff])]
    rw [forwardedPath, forwardedPath, if_pos slash, if_pos (List.mem_append_left _ slash), longer]
    simp
  · have root : (forwardedPath rest).length = 1 := by
      rw [forwardedPath, if_neg slash]
      decide
    rw [root, forwardedPath]
    split
    · rename_i found
      refine List.length_pos_iff.mpr fun none => ?_
      simpa using List.dropWhile_eq_nil_iff.mp none 47 found
    · decide

private theorem afterLine_extend (ended : afterLine (text ++ more) ≠ []) (nonempty : more ≠ []) :
    (afterLine text).length < (afterLine (text ++ more)).length := by
  cases found : cut (ascii "\r\n") text with
  | none => simpa [afterLine, found] using List.length_pos_iff.mpr ended
  | some parts =>
    have still := cut_extend found more
    simpa [afterLine, found, still] using List.length_pos_iff.mpr nonempty

/-- A text that is cut off makes a shorter message. -/
theorem clearMessage_extend (ended : afterLine (text ++ more) ≠ []) (nonempty : more ≠ []) :
    (clearMessage text).length < (clearMessage (text ++ more)).length := by
  have words := firstWords_extend 3 text more
  have method := (words 0).length_le
  have protocol := (words 2).length_le
  have after := afterLine_extend ended nonempty
  have path : (forwardedPath (((firstWords 3 text)[1]?.getD []).drop 7)).length ≤
      (forwardedPath (((firstWords 3 (text ++ more))[1]?.getD []).drop 7)).length := by
    obtain ⟨extra, longer⟩ := words 1
    rw [← longer, List.drop_append]
    exact forwardedPath_extend _ _
  simp only [clearMessage, forwardedLine, List.length_append]
  omega

/-- What becomes of a text, when the arrays are clear. -/
def clearOutcome (text : List UInt8) : Outcome :=
  match parsedTarget ((firstWords 3 text)[1]?.getD []) with
  | some (host, port) =>
    .handled host ((decimalText port.toInt).take 5) (some (clearMessage text))
  | none => .rejected

private theorem handleBuffer_clear (holds : Holds buffer.bytes text)
    (fits : Fits (firstWords 3 text))
    (room : (clearMessage text).length < bufferSize) :
    handleBuffer buffer Locals.clear = .ok (clearOutcome text) := by
  rw [clearOutcome]
  cases target : parsedTarget ((firstWords 3 text)[1]?.getD []) with
  | none => exact handle_rejected holds fits Locals.clear_contains target
  | some named =>
    have lengths : (clearMessage text).length = _ := List.length_append
    rw [List.length_append, ending_length] at lengths
    obtain ⟨parsed, ran, accepted, connects, sent⟩ :=
      handle_accepted holds fits Locals.clear_contains Locals.clear_contains rfl rfl rfl target
        (lengths ▸ room)
    simp only [handleBuffer, ran, ok_bind, accepted, if_true, connects, sent]
    rfl

/-- Only the first segment matters. -/
theorem handleClientRequest_clear (clean : 0 ∉ text) (nonempty : text ≠ [])
    (short : text.length < bufferSize) (fits : Fits (firstWords 3 text))
    (room : (clearMessage text).length < bufferSize) (later : List (List UInt8)) :
    handleClientRequest (text :: later) Locals.clear = .ok (clearOutcome text) := by
  obtain ⟨buffer, received, holds⟩ := receiveClientRequest_eq clean nonempty short later
  rw [handleClientRequest, received, ok_bind]
  exact handleBuffer_clear holds fits room

namespace HttpRequest

variable (request : HttpRequest)

theorem tokens : Tokens request.method request.url request.protocol where
  method_nonempty := request.method_nonempty
  method_solid := request.method_solid
  url_nonempty := by simp [HttpParts.url, ascii]
  url_solid := solid_http.append request.location_solid
  protocol_nonempty := request.protocol_nonempty
  protocol_solid := request.protocol_solid

theorem rest_clean : 0 ∉ request.rest := by
  simp only [HttpParts.rest, List.mem_append, List.mem_flatMap, not_or, not_exists, not_and]
  exact ⟨⟨fun header listed => ⟨(request.headers_lines header listed).2.1, ending_clean⟩,
    ending_clean⟩, request.body_clean⟩

theorem bytes_clean : 0 ∉ request.bytes := request.tokens.bytes_clean request.rest_clean

theorem words : firstWords 3 request.bytes = [request.method, request.url, request.protocol] :=
  request.tokens.words request.rest

theorem bytes_nonempty : request.bytes ≠ [] := by simp [HttpParts.bytes, ascii]

private theorem rest_nonempty : request.rest ≠ [] := by simp [HttpParts.rest, ascii]

theorem target : ∃ target, parsedTarget request.url = some target := by
  have location : request.url.drop 7 = request.location := drop_scheme request.location
  have host : (request.location.take 255).takeWhile notSlash ≠ [] := by
    obtain ⟨nonempty, noSlash⟩ := request.location_host
    cases start : request.location with
    | nil => exact absurd start nonempty
    | cons byte rest =>
      have accepted : notSlash byte = true := by simpa [start, notSlash] using noSlash
      simp [accepted]
  have scheme : ascii "http://" <+: request.url := List.prefix_append _ _
  rw [parsedTarget, if_pos scheme, location, urlTarget]
  split
  · exact ⟨_, rfl⟩
  · exact ⟨_, if_neg host⟩

theorem room : (clearMessage request.bytes).length < bufferSize := by
  have bound := request.tokens.room request.rest (List.prefix_append _ _)
    (Nat.lt_succ_of_le request.length)
  rw [clearMessage, List.length_append, List.length_append, ending_length, words]
  exact bound

/-- A cut that changes nothing delivers the request in one segment. -/
theorem cut_eq_of_same (fits : Fits (firstWords 3 request.bytes))
    (cuts : Cuts request.bytes segments)
    (same : handleClientRequest segments Locals.clear =
      handleClientRequest [request.bytes] Locals.clear) : segments = [request.bytes] := by
  obtain ⟨whole, nonempty⟩ := cuts
  cases segments with
  | nil => exact absurd whole.symm request.bytes_nonempty
  | cons first later =>
    by_contra different
    have separate : later.flatten ≠ [] := by
      intro empty
      have none : later = [] := by
        refine List.eq_nil_iff_forall_not_mem.mpr fun segment member => ?_
        refine nonempty segment (by simp [member]) ?_
        exact List.flatten_eq_nil_iff.mp empty segment member
      rw [none] at whole different
      exact different (by simpa using whole)
    have split : request.bytes = first ++ later.flatten := whole.symm
    have ended : afterLine (first ++ later.flatten) ≠ [] := by
      rw [← split, HttpParts.bytes, HttpParts.line, request.tokens.afterLine_eq]
      exact request.rest_nonempty
    have shorter := clearMessage_extend ended separate
    rw [← split] at shorter
    have part : first.length ≤ request.bytes.length := by simp [split]
    have clean : 0 ∉ first := fun member => request.bytes_clean (by simp [split, member])
    have short := Nat.lt_succ_of_le request.length
    have firstOutcome := handleClientRequest_clear clean (nonempty first (by simp))
      (part.trans_lt short) (Fits.extend (split ▸ fits)) (shorter.trans request.room) later
    have wholeOutcome := handleClientRequest_clear request.bytes_clean request.bytes_nonempty
      short fits request.room []
    rw [firstOutcome, wholeOutcome] at same
    obtain ⟨target, named⟩ := request.target
    have outcomes : clearOutcome first = clearOutcome request.bytes := Except.ok.inj same
    have url : (firstWords 3 request.bytes)[1]?.getD [] = request.url := by
      rw [words]
      rfl
    rw [clearOutcome, clearOutcome, url, named] at outcomes
    split at outcomes
    · have messages : clearMessage first = clearMessage request.bytes := by
        simpa using (Outcome.handled.inj outcomes).2.2
      rw [messages] at shorter
      exact Nat.lt_irrefl _ shorter
    · cases outcomes

private theorem two_bytes : ∃ byte later, request.bytes = byte :: later ∧ later ≠ [] := by
  cases split : request.bytes with
  | nil => exact absurd split request.bytes_nonempty
  | cons byte later =>
    refine ⟨byte, later, rfl, fun empty => ?_⟩
    have length := congrArg List.length split
    simp [empty, HttpParts.bytes, HttpParts.line, requestLine, ascii] at length
    omega

/-- A request that overflows an array still does not when only its first byte
arrives. -/
theorem first_byte (long : ¬Fits (firstWords 3 request.bytes))
    (split : request.bytes = byte :: later) :
    handleClientRequest [[byte], later] Locals.clear ≠
      handleClientRequest [request.bytes] Locals.clear := by
  have pieces : ∀ word ∈ firstWords 3 [byte], word.length ≤ 1 :=
    fun word member => (firstWords_solid member).2.2.length_le
  have fits : Fits (firstWords 3 [byte]) := by
    refine ⟨fun word listed => ?_, fun word listed => ?_, fun word listed => ?_⟩ <;>
      exact (pieces word (List.mem_of_getElem? listed)).trans_lt (by decide)
  have noUrl : (firstWords 3 [byte])[1]? = none := by
    cases second : (firstWords 3 [byte])[1]? with
    | none => rfl
    | some url =>
      have total := firstWords_total 3 [byte]
      match words : firstWords 3 [byte] with
      | [] | [_] => simp [words] at second
      | method :: _ :: _ =>
        have nonempty := List.length_pos_iff.mpr (firstWords_solid (words ▸ List.mem_cons_self)).1
        simp only [words, List.map_cons, List.sum_cons, List.length_singleton] at total
        omega
  have rejected : parsedTarget ((firstWords 3 [byte])[1]?.getD []) = none := by
    rw [noUrl]
    decide
  have short := Nat.lt_succ_of_le request.length
  have clean : 0 ∉ [byte] := fun member =>
    request.bytes_clean (split ▸ List.mem_cons.mpr (.inl (List.mem_singleton.mp member)))
  obtain ⟨buffer, received, holds⟩ :=
    receiveClientRequest_eq clean (by simp) (by simp [bufferSize]) [later]
  obtain ⟨full, whole, contents⟩ :=
    receiveClientRequest_eq request.bytes_clean request.bytes_nonempty short []
  have faults : handleBuffer full Locals.clear = .error .overflow := by
    rw [handleBuffer, parseHttpRequest_fault (RequestLine.read_overflow contents long _)]
    rfl
  have passes := handle_rejected holds fits Locals.clear_contains rejected
  simp only [handleClientRequest, received, whole, ok_bind, faults, passes]
  simp

theorem not_independent : ¬SegmentationIndependent request.bytes := by
  intro independent
  obtain ⟨byte, later, split, nonempty⟩ := request.two_bytes
  have cuts : Cuts request.bytes [[byte], later] :=
    ⟨by simp [split], by simp [nonempty]⟩
  have uncut : Cuts request.bytes [request.bytes] := ⟨by simp, by simp [request.bytes_nonempty]⟩
  have same := independent Locals.clear _ _ cuts uncut
  by_cases fits : Fits (firstWords 3 request.bytes)
  · have alone := congrArg List.length (request.cut_eq_of_same fits cuts same)
    simp at alone
  · exact request.first_byte fits split same

/-- A request with one header and no body. -/
def sample : HttpRequest where
  method := ascii "HEAD"
  location := ascii "h/"
  protocol := ascii "HTTP/1.0"
  headers := [ascii "Host: h"]
  body := []
  method_nonempty := by decide
  method_solid := by decide
  location_solid := by decide
  location_host := by decide
  protocol_nonempty := by decide
  protocol_solid := by decide
  headers_lines := by decide
  body_clean := by decide
  length := by decide

theorem segmentation_dependent :
    ¬∀ request : HttpRequest, SegmentationIndependent request.bytes :=
  fun independent => sample.not_independent (independent sample)

/-- The way in which a request is cut always matters. A request whose words fit
is handled as a whole only when it is not cut at all. -/
theorem segmentation_matters :
    ¬SegmentationIndependent request.bytes ∧
    (Fits (firstWords 3 request.bytes) → ∀ segments, Cuts request.bytes segments →
      ((∀ locals, handleClientRequest segments locals =
        handleClientRequest [request.bytes] locals) ↔ segments = [request.bytes])) := by
  constructor
  · exact request.not_independent
  · intro fits segments cuts
    constructor
    · intro same
      exact request.cut_eq_of_same fits cuts (same Locals.clear)
    · intro uncut locals
      rw [uncut]

theorem segmentation_matters_sample :
    ¬SegmentationIndependent sample.bytes ∧
    ∀ segments, Cuts sample.bytes segments →
      ((∀ locals, handleClientRequest segments locals =
        handleClientRequest [sample.bytes] locals) ↔ segments = [sample.bytes]) := by
  have fits : Fits (firstWords 3 sample.bytes) :=
    sample.words ▸ fits_three (by decide) (by decide) (by decide)
  exact ⟨sample.segmentation_matters.1, sample.segmentation_matters.2 fits⟩

end HttpRequest

end RequestProxy.Proxy
