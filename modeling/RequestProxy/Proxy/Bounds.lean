import RequestProxy.LibC.Bounds
import RequestProxy.Proxy.HttpCalls

namespace RequestProxy.Proxy

open LibC

variable {buffer : CharArray bufferSize} {text : List UInt8}

private theorem parseHttpUrl_inside (pointer : List UInt8) (hostname : CharArray 256) :
    StoresInside (parseHttpUrl pointer hostname 80) := by
  cases read : readString pointer with
  | error fault =>
    have inside := readString_inside pointer
    rw [read] at inside
    rw [parseHttpUrl, sscanf, read]
    intro overflow
    apply inside
    cases overflow
    rfl
  | ok rest =>
    obtain ⟨parsed, ran, _⟩ := parseHttpUrl_eq (Holds.of_readString read) hostname
    rw [ran]
    exact storesInside_ok parsed

private theorem fillPath_inside (path : CharArray 1024) (pointer : List UInt8) :
    StoresInside (fillPath path pointer) := by
  refine (strchr_inside pointer 47).bind fun found _ => ?_
  cases found with
  | some pathStart => exact strncpy_inside path pathStart (by decide)
  | none =>
    refine (readString_inside _).bind fun text read => ?_
    have root : readString (ascii "/" ++ [0]) = .ok (ascii "/") := by decide
    cases root.symm.trans read
    exact storeString_inside path (by decide)

private theorem appendHeaders_inside (modifiedRequest buffer : CharArray bufferSize) :
    StoresInside (appendHeaders modifiedRequest buffer) := by
  refine (strstr_inside buffer.bytes _).bind fun found _ => ?_
  cases found with
  | none => exact storesInside_ok _
  | some headers =>
    refine (strlen_inside modifiedRequest.bytes).bind fun length measured => ?_
    apply strncat_inside
    intro again same
    have bound := strlen_lt measured
    cases measured.symm.trans same
    -- the difference that C takes of unsigned values is not negative
    omega

/-- Once the request line is split, no store of `parse_http_request` leaves its
array, whatever the arrays held before. -/
theorem parseHttpRequest_inside {line read : RequestLine} (scanned : line.read buffer = .ok read)
    (hostname : CharArray 256) : StoresInside (parseHttpRequest buffer line hostname) := by
  rw [parseHttpRequest, scanned, ok_bind]
  refine (strncmp_inside read.url.bytes _ _).bind fun difference _ => ?_
  split
  · exact parseHttpUrl_inside _ hostname
  · refine (strncmp_inside read.url.bytes _ _).bind fun difference _ => ?_
    split
    · exact storesInside_ok _
    · exact (readString_inside _).bind fun _ _ => storesInside_ok _

theorem forwardRequest_inside {line read : RequestLine} (scanned : line.read buffer = .ok read)
    (modifiedRequest : CharArray bufferSize) :
    StoresInside (forwardRequest buffer line modifiedRequest) := by
  rw [forwardRequest, scanned, ok_bind]
  refine (strncmp_inside read.url.bytes _ _).bind fun difference _ => ?_
  split
  · refine (fillPath_inside _ _).bind fun path _ => ?_
    refine (readString_inside _).bind fun method _ => ?_
    refine (readString_inside _).bind fun target _ => ?_
    refine (readString_inside _).bind fun protocol _ => ?_
    refine (snprintf_inside _ _ le_rfl).bind fun printed _ => ?_
    refine (appendHeaders_inside printed buffer).bind fun joined _ => ?_
    exact (readString_inside _).bind fun _ _ => storesInside_ok _
  · exact storesInside_ok none

/-- All stores of both functions stay inside their arrays. -/
def WritesInside (buffer : CharArray bufferSize) (locals : Locals) : Prop :=
  StoresInside (parseHttpRequest buffer locals.parsed locals.hostname) ∧
    StoresInside (forwardRequest buffer locals.forwarded locals.modifiedRequest)

private theorem writesInside_of_fits (holds : Holds buffer.bytes text)
    (fits : Fits (firstWords 3 text))
    (locals : Locals) : WritesInside buffer locals := by
  obtain ⟨read, scanned, _⟩ := RequestLine.read_ok holds fits locals.parsed
  obtain ⟨again, rescanned, _⟩ := RequestLine.read_ok holds fits locals.forwarded
  exact ⟨parseHttpRequest_inside scanned locals.hostname,
    forwardRequest_inside rescanned locals.modifiedRequest⟩

private theorem parseHttpRequest_overflow (holds : Holds buffer.bytes text)
    (long : ¬Fits (firstWords 3 text)) (line : RequestLine) (hostname : CharArray 256) :
    parseHttpRequest buffer line hostname = .error .overflow :=
  parseHttpRequest_fault (RequestLine.read_overflow holds long line) hostname

/-- A request with a method of ten letters. -/
def longMethod : List UInt8 := ascii "AAAAAAAAAA http://h/ HTTP/1.1\r\n\r\n"

theorem long_method_overflows :
    ¬∀ (text : List UInt8) (buffer : CharArray bufferSize) (locals : Locals),
      Holds buffer.bytes text → WritesInside buffer locals := by
  intro inside
  have holds : Holds (CharArray.ofText bufferSize longMethod (by decide)).bytes longMethod :=
    holds_ofText (by decide) (by decide)
  have words : (firstWords 3 longMethod)[0]? = some (ascii "AAAAAAAAAA") := by decide
  have long : ¬Fits (firstWords 3 longMethod) := by
    intro fits
    have short := fits.method _ words
    revert short
    decide
  exact (inside _ _ Locals.clear holds).1 (parseHttpRequest_overflow holds long _ _)

/-- The stores stay inside just when the words of the request fit their arrays. -/
theorem writes_inside_iff (holds : Holds buffer.bytes text) (locals : Locals) :
    WritesInside buffer locals ↔ Fits (firstWords 3 text) := by
  constructor
  · intro inside
    by_contra long
    exact inside.1 (parseHttpRequest_overflow holds long locals.parsed locals.hostname)
  · intro fits
    exact writesInside_of_fits holds fits locals

theorem writes_inside_iff_sample :
    WritesInside (CharArray.ofText bufferSize longMethod (by decide)) Locals.clear ↔
      Fits (firstWords 3 longMethod) :=
  writes_inside_iff (holds_ofText (by decide) (by decide)) Locals.clear

end RequestProxy.Proxy
