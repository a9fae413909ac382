import RequestProxy.Proxy.HttpCalls

namespace RequestProxy.Proxy

open LibC

variable {text m u p : List UInt8}

/-- A text without white space and NUL. -/
def Solid (text : List UInt8) : Prop := ∀ byte ∈ text, isSpace byte = false ∧ byte ≠ 0

instance (text : List UInt8) : Decidable (Solid text) := List.decidableBAll _ text

theorem Solid.clean (solid : Solid text) : 0 ∉ text := fun member => (solid 0 member).2 rfl

theorem Solid.append (first : Solid text) (second : Solid other) : Solid (text ++ other) := by
  intro byte member
  rcases List.mem_append.mp member with before | after
  · exact first byte before
  · exact second byte after

private theorem Solid.no_return (solid : Solid text) : 13 ∉ text := by
  intro member
  have blank := (solid 13 member).1
  revert blank
  decide

theorem solid_http : Solid (ascii "http://") := by decide

def requestLine (method url protocol : List UInt8) : List UInt8 :=
  method ++ ascii " " ++ url ++ ascii " " ++ protocol

structure Tokens (method url protocol : List UInt8) : Prop where
  method_nonempty : method ≠ []
  method_solid : Solid method
  url_nonempty : url ≠ []
  url_solid : Solid url
  protocol_nonempty : protocol ≠ []
  protocol_solid : Solid protocol

namespace Tokens

variable (tokens : Tokens m u p)

include tokens

/-- The words of a request line, up to white space. -/
theorem words_append (separate : Stops (fun byte => !isSpace byte) rest) :
    firstWords 3 (requestLine m u p ++ rest) = [m, u, p] := by
  have space : ascii " " = [32] := by decide
  have stops : ∀ text, Stops (fun byte => !isSpace byte) (32 :: text) := by
    intro text
    simp [Stops, isSpace]
  have blank : isSpace 32 = true := by decide
  rw [requestLine, space]
  simp only [List.append_assoc, List.cons_append, List.nil_append]
  rw [firstWords_cons tokens.method_nonempty
      (fun byte member => (tokens.method_solid byte member).1) (stops _),
    firstWords_space blank,
    firstWords_cons tokens.url_nonempty
      (fun byte member => (tokens.url_solid byte member).1) (stops _),
    firstWords_space blank,
    firstWords_cons tokens.protocol_nonempty
      (fun byte member => (tokens.protocol_solid byte member).1) separate]
  rfl

theorem words (rest : List UInt8) :
    firstWords 3 (requestLine m u p ++ ascii "\r\n" ++ rest) = [m, u, p] := by
  rw [List.append_assoc]
  apply tokens.words_append
  intro byte first
  have same : (13 : UInt8) = byte := by simpa [ascii] using first
  rw [← same]
  decide

private theorem line_clean : 0 ∉ requestLine m u p ∧ 13 ∉ requestLine m u p := by
  have space : (0 : UInt8) ∉ ascii " " ∧ (13 : UInt8) ∉ ascii " " := by decide
  constructor
  · simp [requestLine, tokens.method_solid.clean, tokens.url_solid.clean,
      tokens.protocol_solid.clean, space]
  · simp [requestLine, tokens.method_solid.no_return, tokens.url_solid.no_return,
      tokens.protocol_solid.no_return, space]

/-- The first CRLF is the one behind the request line. -/
theorem split (rest : List UInt8) :
    cut (ascii "\r\n") (requestLine m u p ++ ascii "\r\n" ++ rest) =
      some (requestLine m u p, rest) := by
  have ending : ascii "\r\n" = [13, 10] := by decide
  rw [ending]
  exact cut_append tokens.line_clean.2

theorem afterLine_eq (rest : List UInt8) :
    afterLine (requestLine m u p ++ ascii "\r\n" ++ rest) = rest := by
  rw [afterLine, tokens.split]

/-- A request that fits the buffer still does when it is rewritten. -/
theorem room (rest : List UInt8) (http : ascii "http://" <+: u)
    (short : (requestLine m u p ++ ascii "\r\n" ++ rest).length < bufferSize) :
    (forwardedLine m u p).length + 2 +
      (afterLine (requestLine m u p ++ ascii "\r\n" ++ rest)).length < bufferSize := by
  have stops : Stops (fun byte => !isSpace byte) [] := fun byte first => by simp at first
  have first : firstWords 3 (firstLine (requestLine m u p ++ ascii "\r\n" ++ rest)) = [m, u, p] := by
    have alone := tokens.words_append stops
    rw [firstLine, tokens.split]
    simpa using alone
  exact forwarded_room first http short

theorem bytes_clean (clean : 0 ∉ rest) : 0 ∉ requestLine m u p ++ ascii "\r\n" ++ rest := by
  simp [tokens.line_clean.1, ending_clean, clean]

end Tokens

end RequestProxy.Proxy
