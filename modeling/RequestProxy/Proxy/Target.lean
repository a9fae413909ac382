import Mathlib.Data.List.TakeWhile
import RequestProxy.Proxy.HttpCalls

/-! Which target `parse_http_request` and `connect_to_target_server` choose for a
URL, compared with the one its authority names. -/

namespace RequestProxy.Proxy

open LibC

variable {text rest host digits : List UInt8} {buffer : CharArray bufferSize}

/-- A byte inside the authority of a URL. -/
def inAuthority (byte : UInt8) : Bool := byte ≠ 47 && byte ≠ 63 && byte ≠ 35

/-- The authority of a URL, from what follows `http://`. -/
def authority (rest : List UInt8) : List UInt8 := rest.takeWhile inAuthority

/-- The node and the service an authority names: a host of at most 255 bytes and
a decimal port from 1 to 65535, which is 80 when it is left out. -/
def authorityTarget (authority : List UInt8) : Option (List UInt8 × List UInt8) :=
  let host := authority.takeWhile fun byte => byte ≠ 58
  if 255 < host.length then none
  else match authority.dropWhile fun byte => byte ≠ 58 with
    | [] => some (host, decimalText (80 : Nat))
    | _ :: digits =>
      if digits ≠ [] ∧ digits.all isDigit = true ∧ 1 ≤ digitsValue digits ∧
          digitsValue digits ≤ 65535 then some (host, decimalText (digitsValue digits))
      else none

/-- The proxy contacts the target that the URL names, or none. -/
def ContactsNamed (buffer : CharArray bufferSize) (line : RequestLine) (hostname : CharArray 256)
    (portStr : CharArray 6) (rest : List UInt8) : Prop :=
  ∀ parsed, parseHttpRequest buffer line hostname = .ok parsed → parsed.accepted = true →
    ∃ target, authorityTarget (authority rest) = some target ∧
      connectToTargetServer parsed.hostname parsed.port portStr = .ok target

/-- Nothing stands before the path; or the authority is a host without a colon
and all of the first 255 bytes before the path; or it is a host of at most 255
bytes with a port in range. -/
def WellAddressed (rest : List UInt8) : Prop :=
  rest.takeWhile notSlash = [] ∨
  (authority rest ≠ [] ∧ 58 ∉ authority rest ∧
    authority rest = (rest.takeWhile notSlash).take 255) ∨
  ∃ host digits, authority rest = host ++ 58 :: digits ∧ host ≠ [] ∧ host.length ≤ 255 ∧
    58 ∉ host ∧ digits ≠ [] ∧ (∀ byte ∈ digits, isDigit byte = true) ∧
    1 ≤ digitsValue digits ∧ digitsValue digits ≤ 65535

private theorem parsedTarget_http (rest : List UInt8) :
    parsedTarget (ascii "http://" ++ rest) = urlTarget rest := by
  rw [parsedTarget, if_pos (List.prefix_append _ _), drop_scheme]

private theorem contactsNamed_iff (holds : Holds buffer.bytes text)
    (fits : Fits (firstWords 3 text))
    (second : (firstWords 3 text)[1]? = some (ascii "http://" ++ rest)) (line : RequestLine)
    (hostname : CharArray 256) (portStr : CharArray 6) :
    ContactsNamed buffer line hostname portStr rest ↔
      ∀ host port, urlTarget rest = some (host, port) →
        authorityTarget (authority rest) = some (host, (decimalText port.toInt).take 5) := by
  obtain ⟨read, scanned, url⟩ := read_url holds fits second line
  obtain ⟨parsed, ran, agrees⟩ := parseHttpRequest_eq scanned url hostname
  rw [parsedTarget_http] at agrees
  constructor
  · intro named host port found
    rw [found] at agrees
    obtain ⟨accepted, contents, same⟩ := agrees
    obtain ⟨target, names, contacted⟩ := named parsed ran accepted
    rw [connectToTargetServer_eq contents, same] at contacted
    rw [names, Except.ok.inj contacted]
  · intro named other again accepted
    cases Except.ok.inj (ran.symm.trans again)
    cases found : urlTarget rest with
    | none =>
      rw [found] at agrees
      cases agrees.symm.trans accepted
    | some target =>
      rw [found] at agrees
      obtain ⟨_, contents, same⟩ := agrees
      exact ⟨_, named target.1 target.2 found,
        by rw [connectToTargetServer_eq contents, same]⟩

theorem urlTarget_port (nonempty : host ≠ []) (short : host.length ≤ 255)
    (plain : ∀ byte ∈ host, notColonSlash byte = true) (some : digits ≠ [])
    (numeral : ∀ byte ∈ digits, isDigit byte = true) (stops : Stops isDigit after) :
    urlTarget (host ++ 58 :: (digits ++ after)) = .some (host, toInt (digitsValue digits)) := by
  have colon : Stops notColonSlash (58 :: (digits ++ after)) := by
    simp [Stops, notColonSlash]
  have first := colon.scanset plain short
  have read := scanDecimal_digits some numeral stops
  simp [urlTarget, scan, first, nonempty, read]

private theorem notSlash_of_plain (plain : ∀ byte ∈ host, notColonSlash byte = true) :
    ∀ byte ∈ host, notSlash byte = true := by
  intro byte member
  have accepted := plain byte member
  simp only [notColonSlash, Bool.and_eq_true] at accepted
  exact accepted.2

/-- A host without a port: the first pattern ends behind the host, and the
second one reads the host alone. -/
theorem urlTarget_host (nonempty : host ≠ []) (short : host.length ≤ 255)
    (plain : ∀ byte ∈ host, notColonSlash byte = true) (noPort : after.head? ≠ some 58)
    (alone : ((host ++ after).take 255).takeWhile notSlash = host) :
    urlTarget (host ++ after) = some (host, 80) := by
  have ends : (after.take (255 - host.length)).takeWhile notSlash = [] := by
    rw [List.take_append, List.take_of_length_le short,
      List.takeWhile_append_of_pos (notSlash_of_plain plain)] at alone
    exact List.append_cancel_left (alone.trans (List.append_nil _).symm)
  have stops : Stops notColonSlash (after.take (255 - host.length)) := by
    intro byte first
    cases tail : after.take (255 - host.length) with
    | nil => simp [tail] at first
    | cons head tail' =>
      rw [tail] at first ends
      have same : head = byte := by simpa using first
      have slash : notSlash head = false := by
        by_contra accepted
        simp [Bool.eq_true_of_not_eq_false accepted] at ends
      have isSlash : head = 47 := by simpa [notSlash] using slash
      rw [← same, isSlash]
      decide
  have first : ((host ++ after).take 255).takeWhile notColonSlash = host := by
    rw [List.take_append, List.take_of_length_le short]
    exact stops.takeWhile_append plain
  have literal : scan [.literal 58, .decimal] after = [] := by
    cases after with
    | nil => rfl
    | cons byte after =>
      have different : byte ≠ 58 := by simpa using noPort
      simp [scan, different]
  have values : scan [.scanset 255 notColonSlash, .literal 58, .decimal] (host ++ after) =
      [.text host] := by
    rw [scan]
    simp only [first, nonempty, if_false, List.drop_left, literal]
  simp [urlTarget, values, alone, nonempty]

/-- A host that is read is not empty, and it ends before a colon or is what the
second pattern reads. -/
theorem urlTarget_cases (found : urlTarget rest = some (host, port)) :
    host ≠ [] ∧ ((∃ after, rest = host ++ 58 :: after) ∨
      host = (rest.takeWhile notSlash).take 255) := by
  have swap : (rest.take 255).takeWhile notSlash = (rest.takeWhile notSlash).take 255 :=
    List.take_takeWhile.symm
  rcases scan_hostPort rest with ⟨_, after, nonempty, whole, values⟩ | values | values
  · simp only [urlTarget, values, Option.some.injEq, Prod.mk.injEq] at found
    rw [← found.1]
    exact ⟨nonempty, .inl ⟨after, whole⟩⟩
  all_goals
    simp only [urlTarget, values] at found
    split at found
    · cases found
    · rename_i nonempty
      simp only [Option.some.injEq, Prod.mk.injEq] at found
      rw [← found.1]
      exact ⟨nonempty, .inr swap⟩

private theorem urlTarget_none : urlTarget rest = none ↔ rest.takeWhile notSlash = [] := by
  have swap : (rest.take 255).takeWhile notSlash = (rest.takeWhile notSlash).take 255 :=
    List.take_takeWhile.symm
  have second : (rest.take 255).takeWhile notSlash = [] ↔ rest.takeWhile notSlash = [] := by
    simp [swap, List.take_eq_nil_iff]
  rw [← second]
  rcases scan_hostPort rest with ⟨_, after, nonempty, whole, values⟩ | values | values
  · simp only [urlTarget, values, reduceCtorEq, false_iff]
    intro empty
    cases rest with
    | nil => simp at whole
    | cons byte rest =>
      refine nonempty ?_
      have rejected : notSlash byte = false := by
        by_contra accepted
        simp [Bool.eq_true_of_not_eq_false accepted] at empty
      have isSlash : byte = 47 := by simpa [notSlash] using rejected
      simp [isSlash, notColonSlash]
  all_goals simp [urlTarget, values]

private theorem authority_split (rest : List UInt8) :
    ∃ after, rest = authority rest ++ after ∧ Stops inAuthority after :=
  ⟨rest.dropWhile inAuthority, List.takeWhile_append_dropWhile.symm, stops_dropWhile _ _⟩

/-- A named target read back: a host with a port, or a host alone. -/
theorem authorityTarget_cases (named : authorityTarget name = some (host, service)) :
    host.length ≤ 255 ∧ 58 ∉ host ∧ (name = host ∧ service = decimalText (80 : Nat) ∨
      ∃ digits, name = host ++ 58 :: digits ∧ digits ≠ [] ∧
        (∀ byte ∈ digits, isDigit byte = true) ∧ 1 ≤ digitsValue digits ∧
        digitsValue digits ≤ 65535 ∧ service = decimalText (digitsValue digits)) := by
  rw [authorityTarget] at named
  have whole := List.takeWhile_append_dropWhile (p := fun byte : UInt8 => decide (byte ≠ 58))
    (l := name)
  have noColon : 58 ∉ name.takeWhile fun byte => byte ≠ 58 := by
    intro member
    simpa using List.mem_takeWhile_imp member
  split at named
  · cases named
  · rename_i short
    have bound := Nat.le_of_not_lt short
    split at named
    · rename_i empty
      simp only [Option.some.injEq, Prod.mk.injEq] at named
      rw [empty, List.append_nil] at whole
      rw [← named.1]
      exact ⟨bound, noColon, .inl ⟨whole.symm, named.2.symm⟩⟩
    · rename_i colon digits split
      split at named
      · rename_i numeral
        simp only [Option.some.injEq, Prod.mk.injEq] at named
        have isColon : colon = 58 := by
          have rejected := List.head?_dropWhile_not (fun byte : UInt8 => decide (byte ≠ 58)) name
          rw [split] at rejected
          simpa using rejected
        rw [split, isColon] at whole
        rw [← named.1]
        exact ⟨bound, noColon, .inr ⟨digits, whole.symm, numeral.1,
          List.all_eq_true.mp numeral.2.1, numeral.2.2.1, numeral.2.2.2, named.2.symm⟩⟩
      · cases named

private theorem authorityTarget_port (short : host.length ≤ 255) (noColon : 58 ∉ host)
    (some : digits ≠ [])
    (numeral : ∀ byte ∈ digits, isDigit byte = true) (positive : 1 ≤ digitsValue digits)
    (small : digitsValue digits ≤ 65535) :
    authorityTarget (host ++ 58 :: digits) = .some (host, decimalText (digitsValue digits)) := by
  have stops : Stops (fun byte => decide (byte ≠ 58)) (58 :: digits) := by simp [Stops]
  have accepted : ∀ byte ∈ host, decide (byte ≠ 58) = true := by
    intro byte member
    simpa using fun same : byte = 58 => noColon (same ▸ member)
  rw [authorityTarget, stops.takeWhile_append accepted, stops.dropWhile_append accepted,
    if_neg (Nat.not_lt.mpr short)]
  exact if_pos ⟨some, List.all_eq_true.mpr numeral, positive, small⟩

private theorem authorityTarget_host (short : host.length ≤ 255) (noColon : 58 ∉ host) :
    authorityTarget host = some (host, decimalText (80 : Nat)) := by
  have accepted : ∀ byte ∈ host, decide (byte ≠ 58) = true := by
    intro byte member
    simpa using fun same : byte = 58 => noColon (same ▸ member)
  have all : host.takeWhile (fun byte => decide (byte ≠ 58)) = host :=
    List.takeWhile_eq_self_iff.mpr accepted
  have none : host.dropWhile (fun byte => decide (byte ≠ 58)) = [] :=
    List.dropWhile_eq_nil_iff.mpr accepted
  rw [authorityTarget, all, none, if_neg (Nat.not_lt.mpr short)]

private theorem plain_authority (noColon : 58 ∉ host)
    (inside : ∀ byte ∈ host, inAuthority byte = true) :
    ∀ byte ∈ host, notColonSlash byte = true := by
  intro byte member
  have different : byte ≠ 58 := fun same => noColon (same ▸ member)
  have accepted := inside byte member
  simp only [inAuthority, Bool.and_eq_true] at accepted
  simpa [notColonSlash, different] using accepted.1.1

private theorem inside_authority (rest : List UInt8) :
    ∀ byte ∈ authority rest, inAuthority byte = true :=
  fun _ member => List.mem_takeWhile_imp member

private theorem stops_of_inAuthority (stops : Stops inAuthority after) :
    after.head? ≠ some 58 ∧ Stops isDigit after := by
  cases after with
  | nil => simp [Stops]
  | cons byte after =>
    have rejected := stops byte (by simp)
    have choices : byte = 47 ∨ byte = 63 ∨ byte = 35 := by
      simp only [inAuthority] at rejected
      grind
    rcases choices with same | same | same <;> simp [same, Stops, isDigit]

/-- The target that is read is the one that the authority names, or there is
none of either kind, just for the well-addressed URLs. -/
theorem wellAddressed_iff (rest : List UInt8) :
    (∀ host port, urlTarget rest = some (host, port) →
      authorityTarget (authority rest) = some (host, (decimalText port.toInt).take 5)) ↔
    WellAddressed rest := by
  obtain ⟨after, split, stops⟩ := authority_split rest
  obtain ⟨noPort, notDigit⟩ := stops_of_inAuthority stops
  constructor
  · intro named
    cases found : urlTarget rest with
    | none => exact .inl (urlTarget_none.mp found)
    | some target =>
      obtain ⟨host, port⟩ := target
      obtain ⟨nonempty, reads⟩ := urlTarget_cases found
      obtain ⟨short, noColon, alone | ⟨digits, whole, numeral⟩⟩ :=
        authorityTarget_cases (named host port found)
      · refine .inr (.inl ⟨alone.1 ▸ nonempty, alone.1 ▸ noColon, ?_⟩)
        rcases reads with ⟨behind, colon⟩ | second
        · -- a colon behind the host would belong to the authority
          rw [alone.1, colon] at split
          have same := List.append_cancel_left split
          rw [← same] at noPort
          simp at noPort
        · rw [alone.1]
          exact second
      · exact .inr (.inr ⟨host, digits, whole, nonempty, short, noColon, numeral.1, numeral.2.1,
          numeral.2.2.1, numeral.2.2.2.1⟩)
  · intro addressed host port found
    rcases addressed with empty | ⟨nonempty, noColon, alone⟩ |
      ⟨name, digits, whole, nonempty, short, noColon, some, numeral, positive, small⟩
    · rw [urlTarget_none.mpr empty] at found
      cases found
    · have short : (authority rest).length ≤ 255 := by
        rw [alone]
        exact List.length_take_le _ _
      have plain := plain_authority noColon (inside_authority rest)
      rw [List.take_takeWhile] at alone
      have reads : urlTarget (authority rest ++ after) = some (authority rest, 80) :=
        urlTarget_host nonempty short plain noPort (by rw [← split]; exact alone.symm)
      rw [← split, found] at reads
      cases reads
      exact authorityTarget_host short noColon
    · have members := inside_authority rest
      rw [whole] at members split
      have plain := plain_authority noColon fun byte member => members byte (by simp [member])
      have reads := urlTarget_port nonempty short plain some numeral notDigit
      rw [split, List.append_assoc, List.cons_append, reads] at found
      cases found
      rw [whole, toInt_small (by omega),
        List.take_of_length_le (decimalText_length (digitsValue digits) (by omega))]
      exact authorityTarget_port short noColon some numeral positive small

/-- A request with an `http` URL leads to the target that its authority names,
or is refused, just when its URL is well addressed. -/
theorem target_named_iff (holds : Holds buffer.bytes text) (fits : Fits (firstWords 3 text))
    (second : (firstWords 3 text)[1]? = some (ascii "http://" ++ rest)) (line : RequestLine)
    (hostname : CharArray 256) (portStr : CharArray 6) :
    ContactsNamed buffer line hostname portStr rest ↔ WellAddressed rest := by
  rw [contactsNamed_iff holds fits second, wellAddressed_iff]

def largePort : List UInt8 := ascii "GET http://h:4294967376/ HTTP/1.1\r\n\r\n"

private theorem largePort_words :
    firstWords 3 largePort = [ascii "GET", ascii "http://h:4294967376/", ascii "HTTP/1.1"] := by
  decide

theorem target_not_named :
    ¬∀ (buffer : CharArray bufferSize) (text rest : List UInt8) (line : RequestLine)
      (hostname : CharArray 256) (portStr : CharArray 6), Holds buffer.bytes text →
      Fits (firstWords 3 text) → (firstWords 3 text)[1]? = some (ascii "http://" ++ rest) →
      ContactsNamed buffer line hostname portStr rest := by
  intro always
  have holds : Holds (CharArray.ofText bufferSize largePort (by decide)).bytes largePort :=
    holds_ofText (by decide) (by decide)
  have fits : Fits (firstWords 3 largePort) :=
    largePort_words ▸ fits_three (by decide) (by decide) (by decide)
  have second : (firstWords 3 largePort)[1]? =
      some (ascii "http://" ++ ascii "h:4294967376/") := by
    rw [largePort_words]
    decide
  let line : RequestLine := ⟨.zero 10, .zero 1024, .zero 10⟩
  have named := (contactsNamed_iff holds fits second line (.zero 256) (.zero 6)).mp
    (always _ _ _ _ _ _ holds fits second) (ascii "h") 80 (by decide)
  revert named
  decide

def smallPort : List UInt8 := ascii "GET http://h:8080/ HTTP/1.1\r\n\r\n"

private theorem smallPort_words :
    firstWords 3 smallPort = [ascii "GET", ascii "http://h:8080/", ascii "HTTP/1.1"] := by
  decide

theorem target_named_iff_sample :
    ContactsNamed (CharArray.ofText bufferSize smallPort (by decide))
      ⟨.zero 10, .zero 1024, .zero 10⟩ (.zero 256) (.zero 6) (ascii "h:8080/") ↔
    WellAddressed (ascii "h:8080/") :=
  target_named_iff (holds_ofText (by decide) (by decide))
    (smallPort_words ▸ fits_three (by decide) (by decide) (by decide))
    (smallPort_words ▸ by decide) _ _ _

end RequestProxy.Proxy
