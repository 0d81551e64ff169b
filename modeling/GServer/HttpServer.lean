import GServer.KeepAlive
import GServer.HttpMessage

/-!
# Serving a connection

`handleClient` receives a request, lets the servlets answer it and sends the response,
as often as the server keeps connections alive.  The response says `close` or
`keep-alive` after the request and the server; whether the loop goes on is decided by the
server alone.

Servlets are a parameter: they may change the response and take bytes from the
connection, and what they keep between requests is their state.  The result of sending
is not looked at.
-/

namespace Agent

namespace Http

/-- What the servlets leave behind on a connection: their state, the response and what
they have not read themselves. -/
structure Answer (S : Type) (sock : Socket) where
  servlets : S
  response : ResponseMessage
  rest : Socket
  rest_le : rest.flatten.length ≤ sock.flatten.length

/-- `HttpServer`: `http.request.*` and the parser, `m_isKeepalive`, and
`ServletDispatch::handle` of `m_dispatch`. -/
structure HttpServer (σ S M : Type) where
  recv : RecvConfig σ
  isKeepalive : Bool
  handle : S → HttpRequest M → ResponseMessage → (sock : Socket) → Answer S sock

/-- What happens on a connection. -/
inductive Event (M : Type)
  | receive (result : Received M)
  | send (rsp : ResponseMessage)
  | close

namespace HttpServer

variable {σ S M : Type} [KeyedStore M] (server : HttpServer σ S M)

/-- The servlets on a request, with the response as `handleClient` makes it. -/
def answer (s : S) (req : HttpRequest M) (sock : Socket) : Answer S sock :=
  server.handle s req (ResponseMessage.new req.version (req.close || !server.isKeepalive)) sock

/-- The loop of `handleClient` and the `close` after it, for at most `fuel` turns. -/
def handleLoop : Nat → S → Socket → List (Event M)
  | 0, _, _ => []
  | fuel + 1, s, sock =>
      match recvRequest server.recv sock with
      | (.request req unused, sock) =>
          let a := server.answer s req sock
          .receive (.request req unused) :: .send a.response ::
            if server.isKeepalive then handleLoop fuel a.servlets a.rest else [.close]
      | (.null, _) => [.receive .null, .close]
      | (.undefined, _) => [.receive .undefined]

/-- `HttpServer::handleClient`.  Every request takes at least one byte. -/
def handleClient (s : S) (sock : Socket) : List (Event M) :=
  server.handleLoop (sock.flatten.length + 1) s sock

end HttpServer

/-! ## What is received -/

section Received

variable {σ M : Type} [KeyedStore M]

/-- What is read is gone from the socket. -/
theorem Socket.read_length (n : Nat) (sock : Socket) :
    (sock.read n).2.flatten.length + (sock.read n).1.length = sock.flatten.length := by
  cases sock with
  | nil => rfl
  | cons piece rest =>
      rw [Socket.read]
      split
      · simp [Nat.add_comm]
      · simp only [List.flatten_cons, List.length_append, List.length_take, List.length_drop]
        omega

/-- The loop puts nothing back. -/
theorem Socket.readFixLoop_length {sock sock' : Socket} {n : Nat} {bytes : Str}
    (h : sock.readFixLoop n = some (bytes, sock')) :
    sock'.flatten.length ≤ sock.flatten.length := by
  induction sock generalizing n bytes with
  | nil =>
      cases n with
      | zero =>
          cases h
          exact Nat.le_refl _
      | succ n => cases h
  | cons piece rest ih =>
      cases n with
      | zero =>
          cases h
          exact Nat.le_refl _
      | succ n =>
          rw [Socket.readFixLoop] at h
          split at h
          · cases h
          · split at h
            · obtain ⟨r, hr, heq⟩ := Option.map_eq_some_iff.mp h
              cases heq
              have := ih hr
              simp only [List.flatten_cons, List.length_append]
              omega
            · cases h
              simp only [List.flatten_cons, List.length_append, List.length_drop]
              omega

/-- The loop keeps the mark of the parser's request and takes at least one byte. -/
theorem recvLoop_finished {c : RecvConfig σ} {fuel : Nat} {parser parser' : HttpRequestParser σ M}
    {unresolved unresolved' : Str} {sock sock' : Socket}
    (h : recvLoop c fuel parser unresolved sock = .finished parser' unresolved' sock') :
    parser'.target.data.close = parser.target.data.close ∧
      sock'.flatten.length < sock.flatten.length := by
  induction fuel generalizing parser unresolved sock with
  | zero => cases h
  | succ fuel ih =>
      rw [recvLoop] at h
      have hlength := Socket.read_length (c.bufferSize - unresolved.length) sock
      generalize sock.read (c.bufferSize - unresolved.length) = taken at h hlength
      obtain ⟨bytes, sock₁⟩ := taken
      simp only at h hlength
      split at h
      · cases h
      · rename_i hne
        have hpos := List.length_pos_iff.mpr hne
        split at h
        · cases h
        · rename_i p nparse hexec
          have hclose : p.target.data.close = parser.target.data.close := by
            obtain ⟨target, htarget, heq⟩ := Option.map_eq_some_iff.mp hexec
            cases heq
            exact (runCallbacks_keeps htarget).2.2
          split at h
          · cases h
          · split at h
            · cases h
            · split at h
              · cases h
                exact ⟨hclose, by omega⟩
              · obtain ⟨hkeep, hless⟩ := ih h
                exact ⟨hkeep.trans hclose, by omega⟩

omit [KeyedStore M] in
/-- The body leaves the connection as it was asked for, and puts nothing back. -/
theorem recvBody_keeps {data r : HttpRequest M} {unresolved unused : Str} {sock sock' : Socket}
    {length : Int} (h : recvBody data unresolved sock length = (.request r unused, sock')) :
    r.close = data.close ∧ sock'.flatten.length ≤ sock.flatten.length := by
  rw [recvBody] at h
  split at h
  · split at h
    · simp only at h
      split at h
      · rw [Socket.readFixSize] at h
        split at h
        · split at h
          · cases h
          · rename_i hpos
            exact absurd (Int.le_refl 0) hpos
        · rename_i hread
          split at h
          · cases h
          · cases h
            exact ⟨rfl, Socket.readFixLoop_length hread⟩
      · cases h
        exact ⟨rfl, Nat.le_refl _⟩
    · cases h
      exact ⟨rfl, Nat.le_refl _⟩
  · cases h
    exact ⟨rfl, Nat.le_refl _⟩

/-- **Every request is marked `close`**, whatever its headers say, and takes at least one
byte from the connection. -/
theorem recvRequest_keeps {c : RecvConfig σ} {r : HttpRequest M} {unused : Str}
    {sock sock' : Socket} (h : recvRequest c sock = (.request r unused, sock')) :
    r.close = true ∧ sock'.flatten.length < sock.flatten.length := by
  rw [recvRequest] at h
  split at h
  · cases h
  · cases h
  · rename_i parser unresolved sock₁ hloop
    obtain ⟨hclose, hless⟩ := recvLoop_finished hloop
    split at h
    · cases h
    · obtain ⟨hkeep, hle⟩ := recvBody_keeps h
      exact ⟨hkeep.trans hclose, by omega⟩

end Received

/-! ## What is announced -/

/-- `dump` writes a `connection` line with this value. -/
def ResponseMessage.Says (r : ResponseMessage) (value : Str) : Prop :=
  (connection, [32] ++ value) ∈ headerFields [32] r.headers r.close

/-- The header loop never writes a `connection` line: there is the one of `m_close`. -/
theorem ResponseMessage.says_iff (r : ResponseMessage) (value : Str) :
    r.Says value ↔ value = connectionValue r.close := by
  rw [Says, headerFields, List.mem_append, List.mem_singleton]
  constructor
  · rintro (hmem | heq)
    · obtain ⟨e, he, heq⟩ := List.mem_map.mp hmem
      refine absurd (strcasecmp_of_isNamed ?_) (mem_written.mp he).2
      rw [isNamed, congrArg Prod.fst heq]
      exact decide_eq_true (EqualIgnoringCase.refl _)
    · exact List.append_cancel_left (congrArg Prod.snd heq)
  · rintro rfl
    exact Or.inr rfl

def ResponseMessage.SaysClose (r : ResponseMessage) : Prop :=
  r.Says (ascii "close")

def ResponseMessage.SaysKeepAlive (r : ResponseMessage) : Prop :=
  r.Says (ascii "keep-alive")

/-- The response says `close` exactly when it is marked so. -/
theorem ResponseMessage.saysClose_iff (r : ResponseMessage) : r.SaysClose ↔ r.close = true := by
  rw [SaysClose, says_iff]
  cases r.close with
  | false => exact iff_of_false (by decide) nofun
  | true => exact iff_of_true rfl rfl

/-- The response says `keep-alive` exactly when it is not marked. -/
theorem ResponseMessage.saysKeepAlive_iff (r : ResponseMessage) :
    r.SaysKeepAlive ↔ r.close = false := by
  rw [SaysKeepAlive, says_iff]
  cases r.close with
  | false => exact iff_of_true rfl rfl
  | true => exact iff_of_false (by decide) nofun

/-- Each response is followed by what it says: the end of the connection, or the next
call of `recvRequest`. -/
def Persists {M : Type} : List (Event M) → Prop
  | [] => True
  | .send rsp :: events =>
      (rsp.SaysClose → events = [.close]) ∧
        (rsp.SaysKeepAlive → ∃ result later, events = .receive result :: later) ∧
        Persists events
  | .receive _ :: events => Persists events
  | .close :: events => Persists events

namespace HttpServer

section Serving

variable {σ S M : Type} [KeyedStore M] (server : HttpServer σ S M)

/-- The servlets mark each response as the loop goes on: `close` on a server that closes
after one response, `keep-alive` on one that does not. -/
def MarkedAsServed : Nat → S → Socket → Prop
  | 0, _, _ => True
  | fuel + 1, s, sock =>
      match recvRequest server.recv sock with
      | (.request req _, sock) =>
          let a := server.answer s req sock
          a.response.close = !server.isKeepalive ∧
            (server.isKeepalive = true → MarkedAsServed fuel a.servlets a.rest)
      | _ => True

/-- No servlet changes the mark. -/
def LeavesMark : Prop :=
  ∀ s req rsp sock, (server.handle s req rsp sock).response.close = rsp.close

/-- The loop begins with a call of `recvRequest`. -/
theorem handleLoop_receives {fuel : Nat} (hfuel : 0 < fuel) (s : S) (sock : Socket) :
    ∃ result later, server.handleLoop fuel s sock = .receive result :: later := by
  cases fuel with
  | zero => exact absurd hfuel (Nat.lt_irrefl 0)
  | succ fuel =>
      rw [handleLoop]
      split
      · exact ⟨_, _, rfl⟩
      · exact ⟨_, _, rfl⟩
      · exact ⟨_, _, rfl⟩

omit [KeyedStore M] in
/-- What the loop does with the mark of one response. -/
theorem persists_turn {rsp : ResponseMessage} {events : List (Event M)}
    (hnext : ∃ result later, events = .receive result :: later) :
    Persists (.send rsp :: if server.isKeepalive then events else [.close]) ↔
      rsp.close = (!server.isKeepalive) ∧ (server.isKeepalive = true → Persists events) := by
  obtain ⟨result, later, rfl⟩ := hnext
  rw [Persists, rsp.saysClose_iff, rsp.saysKeepAlive_iff]
  cases server.isKeepalive with
  | false =>
      simp only [Bool.false_eq_true, if_false, Bool.not_false, false_implies, and_true]
      constructor
      · rintro ⟨-, hkeep, -⟩
        rw [← Bool.not_eq_false]
        intro hclose
        obtain ⟨_, _, hcontra⟩ := hkeep hclose
        cases hcontra
      · intro hclose
        refine ⟨fun _ => trivial, fun hkeep => ?_, trivial⟩
        rw [hclose] at hkeep
        cases hkeep
  | true =>
      simp only [if_true, Bool.not_true, forall_const]
      constructor
      · rintro ⟨hclose, -, hlater⟩
        refine ⟨?_, hlater⟩
        rw [← Bool.not_eq_true]
        intro hmark
        cases hclose hmark
      · rintro ⟨hmark, hlater⟩
        refine ⟨fun hclose => ?_, fun _ => ⟨result, later, rfl⟩, hlater⟩
        rw [hmark] at hclose
        cases hclose

/-- With a turn for every byte, the loop persists exactly when every response is marked as it is
served. -/
theorem persists_handleLoop (fuel : Nat) (s : S) (sock : Socket)
    (hfuel : sock.flatten.length < fuel) :
    Persists (server.handleLoop fuel s sock) ↔ server.MarkedAsServed fuel s sock := by
  induction fuel generalizing s sock with
  | zero => exact absurd hfuel (Nat.not_lt_zero _)
  | succ fuel ih =>
      rw [handleLoop, MarkedAsServed]
      rcases hrecv : recvRequest server.recv sock with ⟨_ | _ | _, sock'⟩
      · rename_i req unused
        have hless := (recvRequest_keeps hrecv).2
        have hrest := (server.answer s req sock').rest_le
        simp only [Persists]
        rw [← ih _ _ (by omega)]
        exact server.persists_turn (server.handleLoop_receives (by omega) _ _)
      · exact Iff.rfl
      · exact Iff.rfl

/-- Where no servlet changes the mark, every response says `close`. -/
theorem answer_close (hleaves : server.LeavesMark) {s : S} {sock sock' : Socket}
    {req : HttpRequest M} {unused : Str}
    (hrecv : recvRequest server.recv sock = (.request req unused, sock')) :
    (server.answer s req sock').response.close = true := by
  rw [answer, hleaves, ResponseMessage.new, (recvRequest_keeps hrecv).1, Bool.true_or]

/-- **Persistence.**  What is announced is what is done exactly when the servlets mark
the responses as they are served; servlets that leave the mark alone do so only on a
server that closes, or where no request comes. -/
theorem persists_iff :
    (∀ s sock, Persists (server.handleClient s sock) ↔
      server.MarkedAsServed (sock.flatten.length + 1) s sock) ∧
    (server.LeavesMark → ∀ s sock, Persists (server.handleClient s sock) ↔
      server.isKeepalive = false ∨
        (recvRequest server.recv sock : Received M × Socket).1.request? = none) := by
  have hall : ∀ s sock, Persists (server.handleClient s sock) ↔
      server.MarkedAsServed (sock.flatten.length + 1) s sock :=
    fun s sock => server.persists_handleLoop _ s sock (Nat.lt_succ_self _)
  refine ⟨hall, fun hleaves s sock => ?_⟩
  rw [hall, MarkedAsServed]
  rcases hrecv : recvRequest server.recv sock with ⟨_ | _ | _, sock'⟩
  · have hclose := server.answer_close hleaves hrecv (s := s)
    simp only [hclose, Received.request?]
    cases server.isKeepalive with
    | false => simp
    | true => simp
  · exact iff_of_true trivial (Or.inr rfl)
  · exact iff_of_true trivial (Or.inr rfl)

end Serving

/-! ## A server with one page -/

/-- A server whose only servlet leaves the response as it is made. -/
def onePage (isKeepalive : Bool) : HttpServer Nat Unit MapType where
  recv := rootConfig
  isKeepalive := isKeepalive
  handle := fun _ _ rsp sock => ⟨(), rsp, sock, Nat.le_refl _⟩

/-- A servlet that leaves the mark alone serves two requests on one connection. -/
theorem persists_onePage :
    (onePage false).LeavesMark ∧
      Persists ((onePage false).handleClient () [getRequest, getRequest]) := by
  have hleaves : (onePage false).LeavesMark := fun _ _ _ _ => rfl
  exact ⟨hleaves, ((onePage false).persists_iff.2 hleaves () _).mpr (Or.inl rfl)⟩

/-- A server that keeps connections alive says `close` and takes the next request. -/
theorem keepalive_says_close :
    ¬ ∀ (σ S : Type) (server : HttpServer σ S MapType) (s : S) (sock : Socket),
      Persists (server.handleClient s sock) := by
  intro hall
  have hpersists := hall Nat Unit (onePage true) () [getRequest, getRequest]
  have hfirst : (recvRequest (onePage true).recv [getRequest, getRequest] :
      Received MapType × Socket) = (.request got [], [getRequest]) := by decide
  have hfuel : ([getRequest, getRequest] : Socket).flatten.length + 1 = 35 + 1 + 1 := by
    decide
  rw [handleClient, hfuel, handleLoop, hfirst] at hpersists
  obtain ⟨hclose, -⟩ := hpersists
  have hevents := hclose ((ResponseMessage.saysClose_iff _).mpr rfl)
  obtain ⟨result, later, hlater⟩ := (onePage true).handleLoop_receives
    (Nat.succ_pos 35) () [getRequest]
  have hreceives : (onePage true).handleLoop (35 + 1) () [getRequest] = [.close] := hevents
  rw [hlater] at hreceives
  cases hreceives

end HttpServer

end Http

end Agent
