import RequestProxy.Proxy.Http

namespace RequestProxy.Proxy

open LibC

variable {size : Nat} {text : List UInt8} {buffer : CharArray bufferSize}

private theorem scheme_length : (ascii "http://").length = 7 := rfl

theorem space_length : (ascii " ").length = 1 := rfl

theorem ending_length : (ascii "\r\n").length = 2 := rfl

theorem ending_clean : (0 : UInt8) ∉ ascii "\r\n" := by decide

theorem drop_scheme (rest : List UInt8) : (ascii "http://" ++ rest).drop 7 = rest := by
  rw [← scheme_length, List.drop_left]

private theorem strncmp_scheme {url : List UInt8} (holds : Holds pointer url) :
    ∃ difference, strncmp pointer (ascii "http://" ++ [0]) 7 = .ok difference ∧
      (difference = 0 ↔ ascii "http://" <+: url) := by
  have clean : (0 : UInt8) ∉ ascii "http://" := by decide
  exact scheme_length ▸ holds.strncmp_zero clean

theorem receiveClientRequest_ok (segments : List (List UInt8)) :
    ∃ result, receiveClientRequest segments = .ok result := by
  have short : 0 + (recv segments (bufferSize - 1)).length ≤ bufferSize := by
    have bound := List.length_take_le (bufferSize - 1) (segments.headD [])
    rw [recv]
    omega
  obtain ⟨buffer, stored, _⟩ := store_ok (CharArray.zero bufferSize) short
  rw [receiveClientRequest]
  split
  · exact ⟨none, rfl⟩
  · rw [stored]
    exact ⟨some buffer, rfl⟩

theorem receiveClientRequest_eq {segment : List UInt8} (clean : 0 ∉ segment) (nonempty : segment ≠ [])
    (short : segment.length < bufferSize) (later : List (List UInt8)) :
    ∃ buffer, receiveClientRequest (segment :: later) = .ok (some buffer) ∧
      Holds buffer.bytes segment := by
  have received : recv (segment :: later) (bufferSize - 1) = segment :=
    List.take_of_length_le (Nat.le_sub_one_of_lt short)
  obtain ⟨buffer, stored, contents⟩ :=
    store_ok (CharArray.zero bufferSize) (by omega : 0 + segment.length ≤ bufferSize)
  refine ⟨buffer, ?_, clean, List.replicate (bufferSize - segment.length - 1) 0, ?_⟩
  · have some : segment.length ≠ 0 := by simpa using nonempty
    simp only [receiveClientRequest, received, some, if_false, stored]
    rfl
  · have room : bufferSize - segment.length = bufferSize - segment.length - 1 + 1 := by omega
    rw [contents, ← List.replicate_succ, ← room]
    simp [CharArray.zero]

/-- The words of a text go into arrays of 10, 1024 and 10 characters. -/
structure Fits (words : List (List UInt8)) : Prop where
  method : ∀ word, words[0]? = some word → word.length < 10
  url : ∀ word, words[1]? = some word → word.length < 1024
  protocol : ∀ word, words[2]? = some word → word.length < 10

theorem fits_three (method : m.length < 10) (url : u.length < 1024) (protocol : p.length < 10) :
    Fits [m, u, p] where
  method := by simpa using method
  url := by simpa using url
  protocol := by simpa using protocol

/-- An array that holds a word, or what it held before when there is none. -/
def Assigned (old new : CharArray size) : Option (List UInt8) → Prop
  | some word => Holds new.bytes word
  | none => new = old

private theorem assign_ok (array : CharArray size) {word : Option (List UInt8)}
    (clean : ∀ text, word = some text → 0 ∉ text)
    (fits : ∀ text, word = some text → text.length < size) :
    ∃ stored, array.assign (word.map .text) = .ok stored ∧ Assigned array stored word := by
  cases word with
  | none => exact ⟨array, rfl, rfl⟩
  | some text => exact storeString_holds (clean text rfl) (fits text rfl)

private theorem assign_overflow (array : CharArray size) (long : size ≤ word.length) :
    array.assign (some (.text word)) = .error .overflow :=
  storeString_overflow long

private theorem firstWords_clean (holds : Holds pointer text)
    (member : word ∈ firstWords count text) :
    0 ∉ word := fun inside =>
  holds.1 ((firstWords_solid member).2.2.subset inside)

theorem Fits.extend (fits : Fits (firstWords 3 (text ++ more))) : Fits (firstWords 3 text) := by
  have shorter : ∀ (index : Nat) word, (firstWords 3 text)[index]? = some word →
      ∃ longer, (firstWords 3 (text ++ more))[index]? = some longer ∧
        word.length ≤ longer.length := by
    intro index word listed
    have extended := (firstWords_extend 3 text more index).length_le
    rw [listed, Option.getD_some] at extended
    have nonempty := (firstWords_solid (List.mem_of_getElem? listed)).1
    cases found : (firstWords 3 (text ++ more))[index]? with
    | none =>
      rw [found] at extended
      exact absurd (List.length_eq_zero_iff.mp (Nat.le_zero.mp extended)) nonempty
    | some longer => exact ⟨longer, rfl, by simpa [found] using extended⟩
  refine ⟨fun word listed => ?_, fun word listed => ?_, fun word listed => ?_⟩
  · obtain ⟨longer, found, bound⟩ := shorter 0 word listed
    exact bound.trans_lt (fits.method longer found)
  · obtain ⟨longer, found, bound⟩ := shorter 1 word listed
    exact bound.trans_lt (fits.url longer found)
  · obtain ⟨longer, found, bound⟩ := shorter 2 word listed
    exact bound.trans_lt (fits.protocol longer found)

private theorem RequestLine.read_eq (holds : Holds buffer.bytes text) (line : RequestLine) :
    line.read buffer = do
      let method ← line.method.assign ((firstWords 3 text)[0]?.map .text)
      let url ← line.url.assign ((firstWords 3 text)[1]?.map .text)
      let protocol ← line.protocol.assign ((firstWords 3 text)[2]?.map .text)
      return ⟨method, url, protocol⟩ := by
  simp [RequestLine.read, holds.sscanf_eq, scan_words]

theorem RequestLine.read_ok (holds : Holds buffer.bytes text) (fits : Fits (firstWords 3 text))
    (line : RequestLine) :
    ∃ read, line.read buffer = .ok read ∧
      Assigned line.method read.method (firstWords 3 text)[0]? ∧
      Assigned line.url read.url (firstWords 3 text)[1]? ∧
      Assigned line.protocol read.protocol (firstWords 3 text)[2]? := by
  have clean : ∀ (index : Nat) word, (firstWords 3 text)[index]? = some word → 0 ∉ word :=
    fun index word found => firstWords_clean holds (List.mem_of_getElem? found)
  obtain ⟨method, first, assignedMethod⟩ := assign_ok line.method (clean 0) fits.method
  obtain ⟨url, second, assignedUrl⟩ := assign_ok line.url (clean 1) fits.url
  obtain ⟨protocol, third, assignedProtocol⟩ := assign_ok line.protocol (clean 2) fits.protocol
  refine ⟨⟨method, url, protocol⟩, ?_, assignedMethod, assignedUrl, assignedProtocol⟩
  rw [read_eq holds, first, ok_bind, second, ok_bind, third]
  rfl

/-- A URL that is the second word of the request does not depend on what its
array held. -/
theorem read_url (holds : Holds buffer.bytes text) (fits : Fits (firstWords 3 text))
    (second : (firstWords 3 text)[1]? = some url) (line : RequestLine) :
    ∃ read, line.read buffer = .ok read ∧ Holds read.url.bytes url := by
  obtain ⟨read, scanned, _, assigned, _⟩ := RequestLine.read_ok holds fits line
  rw [second] at assigned
  exact ⟨read, scanned, assigned⟩

private theorem assigned_holds {old new : CharArray size} (assigned : Assigned old new word)
    (before : Holds old.bytes stored) : Holds new.bytes (word.getD stored) := by
  cases word with
  | none =>
    rw [show new = old from assigned]
    exact before
  | some text => exact assigned

/-- The strings in the arrays of a request line. -/
structure RequestLine.Contains (line : RequestLine) (method url protocol : List UInt8) : Prop where
  method : Holds line.method.bytes method
  url : Holds line.url.bytes url
  protocol : Holds line.protocol.bytes protocol

/-- Where a word is missing, its array keeps the string that it held before. -/
theorem RequestLine.Contains.read {line : RequestLine} (before : line.Contains m u p)
    (holds : Holds buffer.bytes text) (fits : Fits (firstWords 3 text)) :
    ∃ read, line.read buffer = .ok read ∧
      read.Contains ((firstWords 3 text)[0]?.getD m) ((firstWords 3 text)[1]?.getD u)
        ((firstWords 3 text)[2]?.getD p) := by
  obtain ⟨read, scanned, method, url, protocol⟩ := RequestLine.read_ok holds fits line
  exact ⟨read, scanned, assigned_holds method before.method, assigned_holds url before.url,
    assigned_holds protocol before.protocol⟩

theorem RequestLine.read_overflow (holds : Holds buffer.bytes text)
    (long : ¬Fits (firstWords 3 text)) (line : RequestLine) :
    line.read buffer = .error .overflow := by
  have clean : ∀ (index : Nat) word, (firstWords 3 text)[index]? = some word → 0 ∉ word :=
    fun index word found => firstWords_clean holds (List.mem_of_getElem? found)
  rw [read_eq holds]
  by_cases method : ∀ word, (firstWords 3 text)[0]? = some word → word.length < 10
  · obtain ⟨_, first, _⟩ := assign_ok line.method (clean 0) method
    by_cases url : ∀ word, (firstWords 3 text)[1]? = some word → word.length < 1024
    · obtain ⟨_, second, _⟩ := assign_ok line.url (clean 1) url
      have protocol : ¬∀ word, (firstWords 3 text)[2]? = some word → word.length < 10 :=
        fun protocol => long ⟨method, url, protocol⟩
      obtain ⟨word, found, tooLong⟩ := by simpa using protocol
      rw [first, ok_bind, second, ok_bind, found, Option.map_some, assign_overflow _ tooLong]
      rfl
    · obtain ⟨word, found, tooLong⟩ := by simpa using url
      rw [first, ok_bind, found, Option.map_some, assign_overflow _ tooLong]
      rfl
  · obtain ⟨word, found, tooLong⟩ := by simpa using method
    rw [found, Option.map_some, assign_overflow _ tooLong]
    rfl

/-- The host and the port that `parse_http_request` reads behind `http://`. -/
def urlTarget (rest : List UInt8) : Option (List UInt8 × Int32) :=
  match scan [.scanset 255 notColonSlash, .literal 58, .decimal] rest with
  | [.text host, .number port] => some (host, port)
  | _ =>
    let host := (rest.take 255).takeWhile notSlash
    if host = [] then none else some (host, 80)

/-- The target that `parse_http_request` reads from a URL. -/
def parsedTarget (url : List UInt8) : Option (List UInt8 × Int32) :=
  if ascii "http://" <+: url then urlTarget (url.drop 7) else none

theorem parsedTarget_some (found : parsedTarget url = some target) : ascii "http://" <+: url := by
  rw [parsedTarget] at found
  split at found
  · assumption
  · cases found

/-- The result of `parse_http_request` agrees with a target, or with its absence. -/
def Parsed.Agrees (parsed : Parsed) : Option (List UInt8 × Int32) → Prop
  | some (host, port) =>
    parsed.accepted = true ∧ Holds parsed.hostname.bytes host ∧ parsed.port = port
  | none => parsed.accepted = false

private theorem scanset_piece (width : Nat) (accepts : UInt8 → Bool) (rest : List UInt8) :
    ((rest.take width).takeWhile accepts).length ≤ width ∧
      ((rest.take width).takeWhile accepts).Sublist rest := by
  refine ⟨?_, (List.takeWhile_sublist _).trans (List.take_sublist _ _)⟩
  calc ((rest.take width).takeWhile accepts).length
      ≤ (rest.take width).length := (List.takeWhile_sublist _).length_le
    _ ≤ width := List.length_take_le _ _

/-- The first pattern yields a host and a port, or at most a host. -/
theorem scan_hostPort (rest : List UInt8) :
    let host := (rest.take 255).takeWhile notColonSlash
    let values := scan [.scanset 255 notColonSlash, .literal 58, .decimal] rest
    (∃ port after, host ≠ [] ∧ rest = host ++ 58 :: after ∧ values = [.text host, .number port]) ∨
      values = [] ∨ values = [.text host] := by
  intro host values
  by_cases empty : host = []
  · exact .inr (.inl (by simp [values, scan, host, empty]))
  · have first : values = .text host :: scan [.literal 58, .decimal] (rest.drop host.length) := by
      simp [values, scan, host, empty]
    have whole : rest = host ++ rest.drop host.length :=
      (List.prefix_iff_eq_append.mp ((List.takeWhile_prefix _).trans (List.take_prefix _ _))).symm
    rw [first]
    cases behind : rest.drop host.length with
    | nil => exact .inr (.inr rfl)
    | cons byte after =>
      by_cases colon : byte = 58
      · cases read : scanDecimal after with
        | none => exact .inr (.inr (by simp [scan, colon, read]))
        | some result =>
          refine .inl ⟨result.1, after, empty, ?_, by simp [scan, colon, read]⟩
          rw [← colon, ← behind]
          exact whole
      · exact .inr (.inr (by simp [scan, colon]))

private theorem scan_host (rest : List UInt8) :
    scan [.scanset 255 notSlash] rest =
      if (rest.take 255).takeWhile notSlash = [] then []
      else [.text ((rest.take 255).takeWhile notSlash)] := by
  simp [scan]

private theorem store_host (hostname : CharArray 256) (clean : 0 ∉ rest)
    (piece : host.length ≤ 255 ∧ host.Sublist rest) :
    ∃ stored : CharArray 256, hostname.assign (some (.text host)) = .ok stored ∧
      Holds stored.bytes host :=
  storeString_holds (fun member => clean (piece.2.subset member)) (by omega)

private theorem second_pattern (holds : Holds pointer rest) (hostname : CharArray 256)
    (port : Int32) :
    ∃ parsed : Parsed, (do
        let values ← sscanf pointer [.scanset 255 notSlash]
        let hostname ← hostname.assign values[0]?
        if values.length = 1 then
          return ⟨true, hostname, port, .defaultPort (← readString hostname.bytes) port⟩
        else return ⟨false, hostname, port, .error "Failed to parse hostname"⟩ :
        Except Fault Parsed) = .ok parsed ∧
      parsed.Agrees (if (rest.take 255).takeWhile notSlash = [] then none
        else some ((rest.take 255).takeWhile notSlash, port)) := by
  rw [holds.sscanf_eq, scan_host]
  by_cases empty : (rest.take 255).takeWhile notSlash = []
  · exact ⟨_, by simp [empty, CharArray.assign]; rfl, by simp [empty, Parsed.Agrees]⟩
  · obtain ⟨stored, assigned, contents⟩ :=
      store_host hostname holds.1 (scanset_piece 255 notSlash rest)
    refine ⟨_, by simp [empty, assigned, contents.readString_eq]; rfl, ?_⟩
    simp [empty, Parsed.Agrees, contents]

theorem parseHttpUrl_eq (holds : Holds pointer rest) (hostname : CharArray 256) :
    ∃ parsed, parseHttpUrl pointer hostname 80 = .ok parsed ∧ parsed.Agrees (urlTarget rest) := by
  rw [parseHttpUrl, holds.sscanf_eq, ok_bind]
  have piece := scanset_piece 255 notColonSlash rest
  obtain ⟨stored, assigned, contents⟩ := store_host hostname holds.1 piece
  rcases scan_hostPort rest with ⟨port, _, _, _, values⟩ | values | values
  · refine ⟨_, by simp [values, assigned, contents.readString_eq]; rfl, ?_⟩
    simp [urlTarget, values, Parsed.Agrees, contents]
  · obtain ⟨parsed, ran, agrees⟩ := second_pattern holds hostname 80
    refine ⟨parsed, ?_, by simpa [urlTarget, values] using agrees⟩
    simpa [values, CharArray.assign] using ran
  · obtain ⟨parsed, ran, agrees⟩ := second_pattern holds stored 80
    refine ⟨parsed, ?_, by simpa [urlTarget, values] using agrees⟩
    simpa [values, assigned] using ran

/-- `parse_http_request` on a string in `url`. -/
theorem parseHttpRequest_eq {line read : RequestLine} (scanned : line.read buffer = .ok read)
    (holds : Holds read.url.bytes url) (hostname : CharArray 256) :
    ∃ parsed, parseHttpRequest buffer line hostname = .ok parsed ∧
      parsed.Agrees (parsedTarget url) := by
  obtain ⟨difference, compared, zero⟩ := strncmp_scheme holds
  obtain ⟨secure, comparedSecure, _⟩ :=
    holds.strncmp_zero (by decide : (0 : UInt8) ∉ ascii "https://")
  have lengthSecure : (ascii "https://").length = 8 := rfl
  rw [lengthSecure] at comparedSecure
  rw [parseHttpRequest, scanned, ok_bind]
  simp only [compared, ok_bind, zero]
  by_cases http : ascii "http://" <+: url
  · have inside : 7 ≤ url.length := http.length_le
    obtain ⟨parsed, ran, agrees⟩ := parseHttpUrl_eq (holds.drop inside) hostname
    simp only [http, if_true, parsedTarget]
    exact ⟨parsed, ran, agrees⟩
  · simp only [http, if_false, parsedTarget, comparedSecure, ok_bind, holds.readString_eq]
    split
    · exact ⟨_, rfl, rfl⟩
    · exact ⟨_, rfl, rfl⟩

theorem parseHttpRequest_fault {line : RequestLine} (scanned : line.read buffer = .error fault)
    (hostname : CharArray 256) : parseHttpRequest buffer line hostname = .error fault := by
  rw [parseHttpRequest, scanned]
  rfl

/-- What `connect_to_target_server` passes to `getaddrinfo` for a small port. -/
theorem connectToTargetServer_eq {hostname : CharArray 256} (holds : Holds hostname.bytes host)
    (port : Int32) (portStr : CharArray 6) :
    connectToTargetServer hostname port portStr =
      .ok (host, (decimalText port.toInt).take 5) := by
  obtain ⟨printed, ran, service⟩ :=
    snprintf_eq portStr (decimalText_clean port.toInt) (by decide : 0 < 6) le_rfl
  rw [connectToTargetServer, ran, ok_bind, holds.readString_eq, service.readString_eq]
  rfl

/-- The path of the request that `forward_request` makes, from what follows
`http://` in the URL. -/
def forwardedPath (rest : List UInt8) : List UInt8 :=
  if 47 ∈ rest then rest.dropWhile fun byte => byte ≠ 47 else ascii "/"

/-- The first line that `forward_request` makes, without its end. -/
def forwardedLine (method url protocol : List UInt8) : List UInt8 :=
  method ++ ascii " " ++ forwardedPath (url.drop 7) ++ ascii " " ++ protocol

def afterLine (text : List UInt8) : List UInt8 :=
  match cut (ascii "\r\n") text with
  | some (_, after) => after
  | none => []

def firstLine (text : List UInt8) : List UInt8 :=
  match cut (ascii "\r\n") text with
  | some (line, _) => line
  | none => text

theorem firstLine_append (text : List UInt8) :
    ∃ rest, text = firstLine text ++ rest ∧ Stops (fun byte => !isSpace byte) rest := by
  rw [firstLine]
  cases found : cut (ascii "\r\n") text with
  | none => exact ⟨[], by simp, by simp [Stops]⟩
  | some parts =>
    refine ⟨ascii "\r\n" ++ parts.2, by simpa using cut_eq found, ?_⟩
    intro byte first
    have same : (13 : UInt8) = byte := by simpa [ascii] using first
    rw [← same]
    decide

theorem firstLine_firstLine (text : List UInt8) : firstLine (firstLine text) = firstLine text := by
  cases found : cut (ascii "\r\n") text with
  | none => simp [firstLine, found]
  | some parts => simp [firstLine, found, cut_before found]

theorem afterLine_firstLine (text : List UInt8) : afterLine (firstLine text) = [] := by
  cases found : cut (ascii "\r\n") text with
  | none => simp [firstLine, afterLine, found]
  | some parts => simp [firstLine, afterLine, found, cut_before found]

theorem forwardedPath_length (rest : List UInt8) :
    (forwardedPath rest).length ≤ max rest.length 1 := by
  rw [forwardedPath]
  split
  · exact le_max_of_le_left (List.dropWhile_sublist _).length_le
  · exact le_max_right _ _

/-- A request that fits its buffer still does when it is rewritten. -/
theorem forwarded_room (words : firstWords 3 (firstLine text) = [m, u, p])
    (http : ascii "http://" <+: u) (short : text.length < bufferSize) :
    (forwardedLine m u p).length + 2 + (afterLine text).length < bufferSize := by
  have total := firstWords_total 3 (firstLine text)
  have path := forwardedPath_length (u.drop 7)
  have scheme := http.length_le
  have whole : (firstLine text).length + (afterLine text).length ≤ text.length := by
    rw [firstLine, afterLine]
    cases found : cut (ascii "\r\n") text with
    | none => simp
    | some parts =>
      have lengths := congrArg List.length (cut_eq found)
      simp only [List.length_append] at lengths ⊢
      omega
  rw [words] at total
  simp only [List.map_cons, List.map_nil, List.sum_cons, List.sum_nil] at total
  rw [List.length_drop] at path
  rw [scheme_length] at scheme
  simp only [forwardedLine, List.length_append, space_length]
  omega

private theorem fillPath_eq (holds : Holds pointer rest) (room : rest.length < 1023)
    (array : CharArray 1024) :
    ∃ path, fillPath array pointer = .ok path ∧ Holds path.bytes (forwardedPath rest) := by
  by_cases slash : 47 ∈ rest
  · obtain ⟨pathStart, found, start⟩ := holds.strchr_some slash
    have short : (rest.dropWhile fun byte => decide (byte ≠ 47)).length < 1024 - 1 :=
      (List.dropWhile_sublist _).length_le.trans_lt room
    obtain ⟨path, copied, contents⟩ := start.strncpy_eq array short (by omega)
    refine ⟨path, ?_, by simpa [forwardedPath, slash] using contents⟩
    rw [fillPath, found, ok_bind]
    exact copied
  · have root : Holds (ascii "/" ++ [0]) (ascii "/") := ⟨by decide, [], rfl⟩
    obtain ⟨path, copied, contents⟩ := root.strcpy_eq array (by decide)
    refine ⟨path, ?_, by simpa [forwardedPath, slash] using contents⟩
    rw [fillPath, holds.strchr_none slash (by decide), ok_bind]
    exact copied

private theorem appendHeaders_eq (contents : Holds buffer.bytes text)
    {modifiedRequest : CharArray bufferSize} (first : Holds modifiedRequest.bytes line) :
    ∃ joined, appendHeaders modifiedRequest buffer = .ok joined ∧
      Holds joined.bytes (line ++ (afterLine text).take (bufferSize - line.length - 1)) := by
  have searched := contents.strstr_eq ending_clean (by decide)
  rw [appendHeaders]
  cases split : cut (ascii "\r\n") text with
  | none =>
    simp only [split] at searched
    refine ⟨modifiedRequest, ?_, by simpa [afterLine, split] using first⟩
    rw [searched]
    rfl
  | some parts =>
    simp only [split] at searched
    obtain ⟨headers, found, after⟩ := searched
    have rest : afterLine text = parts.2 := by simp [afterLine, split]
    rw [ending_length] at after
    have fits : line.length + (parts.2.take (bufferSize - line.length - 1)).length < bufferSize := by
      have inside := first.length_lt
      have bound := List.length_take_le (bufferSize - line.length - 1) parts.2
      omega
    obtain ⟨joined, ran, joins⟩ := first.strncat_eq after fits
    refine ⟨joined, ?_, rest ▸ joins⟩
    simp only [found, ok_bind, first.strlen_eq]
    exact ran

/-- `forward_request` on strings: what does not go into its array is cut off. -/
theorem forwardRequest_cut {line read : RequestLine} (scanned : line.read buffer = .ok read)
    (contents : Holds buffer.bytes text) (method : Holds read.method.bytes m)
    (url : Holds read.url.bytes u) (protocol : Holds read.protocol.bytes p)
    (http : ascii "http://" <+: u) (modifiedRequest : CharArray bufferSize) :
    forwardRequest buffer line modifiedRequest = .ok (some
      ((forwardedLine m u p ++ ascii "\r\n" ++ afterLine text).take (bufferSize - 1))) := by
  obtain ⟨difference, compared, zero⟩ := strncmp_scheme url
  have inside : 7 ≤ u.length := http.length_le
  have short : (u.drop 7).length < 1023 := by
    have bound := url.length_lt
    rw [List.length_drop]
    omega
  obtain ⟨path, stored, pathHolds⟩ := fillPath_eq (url.drop inside) short (CharArray.zero 1024)
  have clean : 0 ∉ forwardedLine m u p ++ ascii "\r\n" := by
    have space : (0 : UInt8) ∉ ascii " " := by decide
    simp [forwardedLine, method.1, protocol.1, pathHolds.1, space, ending_clean]
  obtain ⟨printed, ran, first⟩ :=
    snprintf_eq modifiedRequest clean (by decide : 0 < bufferSize) le_rfl
  obtain ⟨joined, appended, message⟩ := appendHeaders_eq contents first
  -- what is left of the array once the line has been cut
  have room : ∀ length, bufferSize - min (bufferSize - 1) length - 1 = bufferSize - 1 - length := by
    intro length
    have size : bufferSize = 4096 := rfl
    omega
  rw [List.length_take, room, ← List.take_append] at message
  rw [forwardRequest, scanned, ok_bind]
  simp only [compared, ok_bind, zero, http, if_true, stored, method.readString_eq,
    pathHolds.readString_eq, protocol.readString_eq]
  rw [forwardedLine] at ran
  rw [ran, ok_bind, appended, ok_bind, message.readString_eq]
  rfl

/-- `forward_request` on strings, when nothing has to be cut off. -/
theorem forwardRequest_eq {line read : RequestLine} (scanned : line.read buffer = .ok read)
    (contents : Holds buffer.bytes text) (method : Holds read.method.bytes m)
    (url : Holds read.url.bytes u) (protocol : Holds read.protocol.bytes p)
    (http : ascii "http://" <+: u)
    (room : (forwardedLine m u p).length + 2 + (afterLine text).length < bufferSize)
    (modifiedRequest : CharArray bufferSize) :
    forwardRequest buffer line modifiedRequest =
      .ok (some (forwardedLine m u p ++ ascii "\r\n" ++ afterLine text)) := by
  rw [forwardRequest_cut scanned contents method url protocol http, List.take_of_length_le]
  simp only [List.length_append, ending_length]
  omega

theorem forwardRequest_refused {line read : RequestLine} (scanned : line.read buffer = .ok read)
    (url : Holds read.url.bytes u) (other : ¬ascii "http://" <+: u)
    (modifiedRequest : CharArray bufferSize) :
    forwardRequest buffer line modifiedRequest = .ok none := by
  obtain ⟨difference, compared, zero⟩ := strncmp_scheme url
  rw [forwardRequest, scanned, ok_bind]
  simp only [compared, ok_bind, zero, other, if_false]
  rfl

/-- An accepted request, when the arrays hold strings before it is read. -/
theorem handle_accepted (holds : Holds buffer.bytes text) (fits : Fits (firstWords 3 text))
    {locals : Locals} (parsedBefore : locals.parsed.Contains m₀ u₀ p₀)
    (forwardedBefore : locals.forwarded.Contains m₀ u₀ p₀)
    (method : (firstWords 3 text)[0]?.getD m₀ = m) (url : (firstWords 3 text)[1]?.getD u₀ = u)
    (protocol : (firstWords 3 text)[2]?.getD p₀ = p)
    (target : parsedTarget u = some (host, port))
    (room : (forwardedLine m u p).length + 2 + (afterLine text).length < bufferSize) :
    ∃ parsed, parseHttpRequest buffer locals.parsed locals.hostname = .ok parsed ∧
      parsed.accepted = true ∧
      connectToTargetServer parsed.hostname parsed.port locals.portStr =
        .ok (host, (decimalText port.toInt).take 5) ∧
      forwardRequest buffer locals.forwarded locals.modifiedRequest =
        .ok (some (forwardedLine m u p ++ ascii "\r\n" ++ afterLine text)) := by
  obtain ⟨read, scanned, contains⟩ := parsedBefore.read holds fits
  obtain ⟨again, rescanned, forwarded⟩ := forwardedBefore.read holds fits
  rw [method, url, protocol] at contains forwarded
  obtain ⟨parsed, ran, agrees⟩ := parseHttpRequest_eq scanned contains.url locals.hostname
  rw [target] at agrees
  obtain ⟨accepted, hostname, same⟩ := agrees
  exact ⟨parsed, ran, accepted, same ▸ connectToTargetServer_eq hostname parsed.port locals.portStr,
    forwardRequest_eq rescanned holds forwarded.method forwarded.url forwarded.protocol
      (parsedTarget_some target) room locals.modifiedRequest⟩

/-- What is sent to the target went through all the functions before. -/
theorem handleBuffer_handled (handled : handleBuffer buffer locals =
    .ok (.handled host service sent)) :
    ∃ parsed, parseHttpRequest buffer locals.parsed locals.hostname = .ok parsed ∧
      parsed.accepted = true ∧
      connectToTargetServer parsed.hostname parsed.port locals.portStr = .ok (host, service) ∧
      forwardRequest buffer locals.forwarded locals.modifiedRequest = .ok sent := by
  rw [handleBuffer] at handled
  cases parses : parseHttpRequest buffer locals.parsed locals.hostname with
  | error fault => simp [parses] at handled
  | ok parsed =>
    cases accepted : parsed.accepted with
    | false => simp [parses, accepted, pure, Except.pure] at handled
    | true =>
      cases connects : connectToTargetServer parsed.hostname parsed.port locals.portStr with
      | error fault => simp [parses, accepted, connects] at handled
      | ok target =>
        cases forwards : forwardRequest buffer locals.forwarded locals.modifiedRequest with
        | error fault => simp [parses, accepted, connects, forwards] at handled
        | ok message =>
          simp only [parses, accepted, connects, forwards, ok_bind, if_true] at handled
          cases handled
          exact ⟨parsed, rfl, accepted, connects, rfl⟩

theorem handle_rejected (holds : Holds buffer.bytes text) (fits : Fits (firstWords 3 text))
    {locals : Locals} (before : locals.parsed.Contains m u p)
    (target : parsedTarget ((firstWords 3 text)[1]?.getD u) = none) :
    handleBuffer buffer locals = .ok .rejected := by
  obtain ⟨read, scanned, contains⟩ := before.read holds fits
  obtain ⟨parsed, ran, agrees⟩ := parseHttpRequest_eq scanned contains.url locals.hostname
  rw [target] at agrees
  have rejected : parsed.accepted = false := agrees
  simp only [handleBuffer, ran, ok_bind, rejected, Bool.false_eq_true, if_false]
  rfl

theorem Locals.clear_contains : Locals.clear.parsed.Contains [] [] [] :=
  ⟨holds_ofText (by decide) (by decide), holds_ofText (by decide) (by decide),
    holds_ofText (by decide) (by decide)⟩

end RequestProxy.Proxy
