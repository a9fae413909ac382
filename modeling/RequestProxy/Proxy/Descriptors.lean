import RequestProxy.Abstract.Ledger
import RequestProxy.Proxy.Response

/-! The descriptors that a call of `handle_client_request` opens and closes. The
ledger has the open descriptors of the process; `socket` acquires one and `close`
releases it. A call that ends with SIGPIPE or an access outside an array does not
return, and nothing is said about it. -/

namespace RequestProxy.Proxy

open LibC Abstract

/-- What `socket` and `connect` do for one address of the list. -/
inductive Attempt where
  | noSocket
  | refused (sockfd : Nat)
  | connected (sockfd : Nat)
  deriving DecidableEq

def Attempt.sockfd : Attempt → Option Nat
  | .noSocket => none
  | .refused sockfd => some sockfd
  | .connected sockfd => some sockfd

/-- The descriptor of an address for which both calls succeed. -/
def Attempt.connection : Attempt → Option Nat
  | .connected sockfd => some sockfd
  | _ => none

/-- What happens around one call of `handle_client_request`: what `recv` returns
on the client, the result of `getaddrinfo` with what becomes of its addresses,
and both sides of the relay. -/
structure Surroundings where
  segments : List (List UInt8)
  addresses : Option (List Attempt)
  target : Sender
  client : Sender
  chunks : List Chunk
  broken : Bool

/-- The loop of `connect_to_target_server` over the addresses, with the test of
`p` behind it. -/
def connectLoop : List Attempt → Ledger Nat → Int × Ledger Nat
  | [], table => (-1, table)
  | .noSocket :: addresses, table => connectLoop addresses table
  | .refused sockfd :: addresses, table =>
    connectLoop addresses ((table.acquire sockfd).release sockfd)
  | .connected sockfd :: _, table => (sockfd, table.acquire sockfd)

/-- `connect_to_target_server` from `getaddrinfo` on. -/
def connectAddresses (addresses : Option (List Attempt)) (table : Ledger Nat) :
    Int × Ledger Nat :=
  match addresses with
  | none => (-1, table)
  | some addresses => connectLoop addresses table

/-- What a call leaves behind: the descriptors, what was sent on both sockets,
and how `forward_response` ended if it was called. -/
structure Served where
  descriptors : Ledger Nat
  target : Outgoing
  client : Outgoing
  relayed : Option Relayed

namespace Surroundings

def early (around : Surroundings) (table : Ledger Nat) : Served :=
  ⟨table, .fresh around.target, .fresh around.client, none⟩

/-- `handle_client_request` on a client socket. -/
def handleClientRequest (around : Surroundings) (locals : Locals) (clientSocket : Nat)
    (table : Ledger Nat) : Except Fault Served := do
  match ← receiveClientRequest around.segments with
  | none => return around.early table
  | some buffer =>
    let parsed ← parseHttpRequest buffer locals.parsed locals.hostname
    if parsed.accepted then
      let _ ← connectToTargetServer parsed.hostname parsed.port locals.portStr
      let (targetSocket, table) := connectAddresses around.addresses table
      if targetSocket < 0 then return around.early table
      else
        let target ← forwardToTarget buffer locals.forwarded locals.modifiedRequest
          (.fresh around.target)
        let (relayed, client) := forwardResponse around.broken around.chunks (.fresh around.client)
        return ⟨(table.release targetSocket.toNat).release clientSocket, target, client,
          some relayed⟩
    else return around.early table

def listed (around : Surroundings) : List Attempt := around.addresses.getD []

/-- The socket of the first address for which both calls succeed, or -1. -/
def firstConnection (around : Surroundings) : Int :=
  match around.listed.findSome? Attempt.connection with
  | some sockfd => sockfd
  | none => -1

/-- `socket` returns descriptors that are not open. One that is closed again
after a failed `connect` may be returned another time. -/
def Unused (around : Surroundings) (opened : Finset Nat) : Prop :=
  ∀ address ∈ around.listed, ∀ sockfd, address.sockfd = some sockfd → sockfd ∉ opened

/-- The client's socket and every descriptor that was obtained are closed, once
each, and no other, and `connect_to_target_server` chose the first address it
could. -/
structure Accounted (around : Surroundings) (clientSocket : Nat) (opened : Finset Nat)
    (served : Served) : Prop where
  closed : served.descriptors.released.Perm (clientSocket :: served.descriptors.acquired)
  live : served.descriptors.live = opened.erase clientSocket
  connected : (connectAddresses around.addresses (.start opened)).1 = around.firstConnection

/-- A request arrives and is accepted. -/
def Accepts (around : Surroundings) (locals : Locals) : Prop :=
  ∃ buffer parsed, receiveClientRequest around.segments = .ok (some buffer) ∧
    parseHttpRequest buffer locals.parsed locals.hostname = .ok parsed ∧ parsed.accepted = true

/-- One of the addresses can be connected to. -/
def Connects (around : Surroundings) : Prop :=
  ∃ sockfd, .connected sockfd ∈ around.listed

end Surroundings

variable {before : Finset Nat} {table : Ledger Nat} {addresses : List Attempt}

private theorem connectLoop_result (addresses : List Attempt) (table : Ledger Nat) :
    (connectLoop addresses table).1 =
      match addresses.findSome? Attempt.connection with
      | some sockfd => (sockfd : Int)
      | none => -1 := by
  induction addresses generalizing table with
  | nil => rfl
  | cons address addresses ih =>
    cases address with
    | noSocket => exact ih table
    | refused sockfd => exact ih _
    | connected sockfd => rfl

private theorem refused_live (unused : sockfd ∉ table.live) :
    ((table.acquire sockfd).release sockfd).live = table.live :=
  Finset.erase_insert unused

private theorem refused_conserved (conserved : table.Conserved before)
    (unused : sockfd ∉ table.live) :
    ((table.acquire sockfd).release sockfd).Conserved before :=
  (conserved.acquire unused).release (Finset.mem_insert_self _ _)

/-- The loop leaves at most the descriptor open that it returns. -/
theorem connectLoop_conserved (conserved : table.Conserved before)
    (unused : ∀ address ∈ addresses, ∀ sockfd, address.sockfd = some sockfd →
      sockfd ∉ table.live) :
    (connectLoop addresses table).2.Conserved before ∧
      (connectLoop addresses table).2.live =
        match addresses.findSome? Attempt.connection with
        | some sockfd => insert sockfd table.live
        | none => table.live := by
  induction addresses generalizing table with
  | nil => exact ⟨conserved, rfl⟩
  | cons address addresses ih =>
    have later : ∀ address ∈ addresses, ∀ sockfd, address.sockfd = some sockfd →
        sockfd ∉ table.live := fun address member => unused address (List.mem_cons_of_mem _ member)
    cases address with
    | noSocket => exact ih conserved later
    | refused sockfd =>
      have new : sockfd ∉ table.live := unused _ List.mem_cons_self sockfd rfl
      have same := refused_live new
      have rest := ih (refused_conserved conserved new) (same.symm ▸ later)
      rw [same] at rest
      exact rest
    | connected sockfd =>
      have new : sockfd ∉ table.live := unused _ List.mem_cons_self sockfd rfl
      exact ⟨conserved.acquire new, rfl⟩

namespace Surroundings

variable {around : Surroundings} {locals : Locals} {clientSocket : Nat} {opened : Finset Nat}
variable {served : Served}

private theorem connectAddresses_result (around : Surroundings) (table : Ledger Nat) :
    (connectAddresses around.addresses table).1 = around.firstConnection := by
  rw [firstConnection, listed]
  cases around.addresses with
  | none => rfl
  | some addresses => exact connectLoop_result addresses table

private theorem connectAddresses_conserved (conserved : table.Conserved before)
    (unused : around.Unused table.live) :
    (connectAddresses around.addresses table).2.Conserved before ∧
      (connectAddresses around.addresses table).2.live =
        match around.listed.findSome? Attempt.connection with
        | some sockfd => insert sockfd table.live
        | none => table.live := by
  rw [Unused, listed] at unused
  rw [listed]
  cases found : around.addresses with
  | none => exact ⟨conserved, rfl⟩
  | some addresses =>
    rw [found] at unused
    exact connectLoop_conserved conserved unused

private theorem connects_iff (around : Surroundings) :
    around.Connects ↔ ∃ sockfd, around.listed.findSome? Attempt.connection = some sockfd := by
  rw [Connects, ← Option.isSome_iff_exists, List.findSome?_isSome_iff]
  constructor
  · intro ⟨sockfd, member⟩
    exact ⟨_, member, rfl⟩
  · intro ⟨address, member, found⟩
    cases address with
    | connected sockfd => exact ⟨sockfd, member⟩
    | noSocket => cases found
    | refused sockfd => cases found

/-- Where a call that returns has come to, with what it closed. -/
theorem handle_cases
    (returns : around.handleClientRequest locals clientSocket table = .ok served) :
    (¬around.Accepts locals ∧ served.descriptors = table) ∨
    (around.firstConnection < 0 ∧
      served.descriptors = (connectAddresses around.addresses table).2) ∨
    (around.Accepts locals ∧ ¬around.firstConnection < 0 ∧
      served.descriptors = ((connectAddresses around.addresses table).2.release
        around.firstConnection.toNat).release clientSocket) := by
  rw [handleClientRequest] at returns
  cases received : receiveClientRequest around.segments with
  | error fault => simp [received] at returns
  | ok request =>
    cases request with
    | none =>
      rw [received] at returns
      cases returns
      refine .inl ⟨?_, rfl⟩
      intro ⟨buffer, _, arrives, _⟩
      cases received.symm.trans arrives
    | some buffer =>
      rw [received, ok_bind] at returns
      cases parses : parseHttpRequest buffer locals.parsed locals.hostname with
      | error fault => simp [parses] at returns
      | ok parsed =>
        simp only [parses, ok_bind, connectAddresses_result] at returns
        split at returns
        · rename_i accepted
          have accepts : around.Accepts locals := ⟨buffer, parsed, received, parses, accepted⟩
          cases resolves : connectToTargetServer parsed.hostname parsed.port locals.portStr with
          | error fault => simp [resolves] at returns
          | ok service =>
            rw [resolves, ok_bind] at returns
            split at returns
            · rename_i failed
              cases returns
              exact .inr (.inl ⟨failed, rfl⟩)
            · rename_i connected
              cases forwards : forwardToTarget buffer locals.forwarded locals.modifiedRequest
                (.fresh around.target) with
              | error fault => simp [forwards] at returns
              | ok target =>
                rw [forwards] at returns
                cases returns
                exact .inr (.inr ⟨accepts, connected, rfl⟩)
        · rename_i rejected
          cases returns
          refine .inl ⟨?_, rfl⟩
          intro ⟨_, _, arrives, again, accepted⟩
          cases received.symm.trans arrives
          cases parses.symm.trans again
          exact rejected accepted

private theorem not_accounted (clientOpen : clientSocket ∈ opened)
    (live : served.descriptors.live = opened) :
    ¬around.Accounted clientSocket opened served := by
  intro accounted
  have closed := accounted.live
  rw [live] at closed
  exact Finset.notMem_erase clientSocket opened (closed ▸ clientOpen)

/-- The descriptor that is connected was not open before. -/
theorem Unused.connection (unused : around.Unused opened)
    (found : around.listed.findSome? Attempt.connection = some sockfd) : sockfd ∉ opened := by
  obtain ⟨address, member, connected⟩ := List.exists_of_findSome?_eq_some found
  cases address with
  | connected other =>
    cases connected
    exact unused _ member sockfd rfl
  | noSocket => cases connected
  | refused other => cases connected

private theorem accounted_of_closed (clientOpen : clientSocket ∈ opened)
    (conserved : table.Conserved opened) (live : table.live = insert sockfd opened)
    (new : sockfd ∉ opened)
    (closed : served.descriptors = (table.release sockfd).release clientSocket) :
    around.Accounted clientSocket opened served := by
  have settled : (table.release sockfd).live = opened := by
    rw [Ledger.release, live]
    exact Finset.erase_insert new
  have released : (table.release sockfd).Conserved opened :=
    conserved.release (live ▸ Finset.mem_insert_self _ _)
  have left : served.descriptors.live = opened.erase clientSocket := by
    rw [closed, Ledger.release, settled]
  have whole : served.descriptors.Conserved opened :=
    closed ▸ released.release (settled.symm ▸ clientOpen)
  refine ⟨(whole.live_erase_iff clientOpen).mp left, left, ?_⟩
  exact connectAddresses_result around (.start opened)

def silent : Surroundings where
  segments := []
  addresses := none
  target := .ready
  client := .ready
  chunks := []
  broken := false

theorem silent_client_stays_open :
    ¬∀ (around : Surroundings) (locals : Locals) (clientSocket : Nat) (opened : Finset Nat)
      (served : Served), clientSocket ∈ opened → around.Unused opened →
        around.handleClientRequest locals clientSocket (.start opened) = .ok served →
        around.Accounted clientSocket opened served := by
  intro closes
  have unused : silent.Unused {4} := by
    intro address member
    simp [silent, listed] at member
  exact not_accounted (Finset.mem_singleton_self 4) rfl
    (closes silent .clear 4 {4} (silent.early (.start {4})) (Finset.mem_singleton_self 4) unused rfl)

/-- The call closes what it has to just when it comes to its end: a request
arrives, is accepted, and a target can be connected to. -/
theorem accounted_iff (clientOpen : clientSocket ∈ opened) (unused : around.Unused opened)
    (returns : around.handleClientRequest locals clientSocket (.start opened) = .ok served) :
    around.Accounted clientSocket opened served ↔ around.Accepts locals ∧ around.Connects := by
  obtain ⟨conserved, live⟩ :=
    connectAddresses_conserved (Ledger.conserved_start opened) unused
  rw [connects_iff]
  rcases handle_cases returns with ⟨early, same⟩ | ⟨failed, same⟩ | ⟨accepts, connected, same⟩
  · apply iff_of_false
    · exact not_accounted clientOpen (congrArg Ledger.live same)
    · exact fun reaches => early reaches.1
  · have missing : around.listed.findSome? Attempt.connection = none := by
      cases found : around.listed.findSome? Attempt.connection with
      | none => rfl
      | some sockfd =>
        rw [firstConnection, found] at failed
        exact absurd failed (by simp)
    rw [missing] at live
    apply iff_of_false
    · exact not_accounted clientOpen ((congrArg Ledger.live same).trans live)
    · intro ⟨_, sockfd, found⟩
      cases missing.symm.trans found
  · cases found : around.listed.findSome? Attempt.connection with
    | none =>
      rw [firstConnection, found] at connected
      exact absurd (by decide) connected
    | some sockfd =>
      apply iff_of_true
      · rw [found] at live
        have first : around.firstConnection = sockfd := by rw [firstConnection, found]
        rw [first] at same
        exact accounted_of_closed clientOpen conserved live (unused.connection found) same
      · exact ⟨accepts, sockfd, rfl⟩

/-- The first address has no socket, the second refuses, the third is connected
on the descriptor that the second one gave back. -/
def thirdAddress : Surroundings where
  segments := [ascii "GET http://h HTTP/1.1\r\n"]
  addresses := some [.noSocket, .refused 5, .connected 5]
  target := .ready
  client := .ready
  chunks := [⟨[1, 2], by decide, by decide⟩]
  broken := false

theorem accounted_iff_sample :
    ∃ served, thirdAddress.handleClientRequest .clear 4 (.start {4}) = .ok served ∧
      (thirdAddress.Accounted 4 {4} served ↔
        thirdAddress.Accepts .clear ∧ thirdAddress.Connects) := by
  obtain ⟨buffer, received, holds⟩ := receiveClientRequest_eq
    (by decide : 0 ∉ ascii "GET http://h HTTP/1.1\r\n") (by decide) (by decide) []
  have words : firstWords 3 (ascii "GET http://h HTTP/1.1\r\n") =
      [ascii "GET", ascii "http://h", ascii "HTTP/1.1"] := by decide
  have fits : Fits (firstWords 3 (ascii "GET http://h HTTP/1.1\r\n")) :=
    words ▸ fits_three (by decide) (by decide) (by decide)
  obtain ⟨parsed, parses, accepted, resolves, forwards⟩ := handle_accepted holds fits
    Locals.clear_contains Locals.clear_contains (m := ascii "GET") (u := ascii "http://h")
    (p := ascii "HTTP/1.1") (by decide) (by decide) (by decide)
    (by decide : parsedTarget (ascii "http://h") = some (ascii "h", 80)) (by decide)
  have returns : ∃ served,
      thirdAddress.handleClientRequest .clear 4 (.start {4}) = .ok served := by
    rw [handleClientRequest, show thirdAddress.segments = [_] from rfl, received, ok_bind]
    simp only [parses, ok_bind, accepted, if_true, resolves, forwardToTarget_eq forwards]
    exact ⟨_, rfl⟩
  obtain ⟨served, returns⟩ := returns
  refine ⟨served, returns, accounted_iff (Finset.mem_singleton_self 4) ?_ returns⟩
  simp [Unused, thirdAddress, listed, Attempt.sockfd]

end Surroundings

end RequestProxy.Proxy
