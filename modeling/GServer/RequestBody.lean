import GServer.HttpReceive
import Mathlib

/-!
# The body of a request

After the loop of `recvRequest` the head has been parsed, and what was read beyond it
lies at the front of the buffer.  The body is allocated with as many bytes as
`content-length` says, filled from the buffer, and then from the connection with
`readFixSize`.  `http.request.max_body_size` is not looked at.

A read of the connection can fail here.  `readFixSize` keeps the `-1` as a `size_t`:
its position goes back by one byte, and it waits for one byte more.  What lies in the
body beyond the position is overwritten before the loop ends, so that the bytes before
the position stand for the body.  The counts are kept in the natural numbers.
-/

namespace Agent

open Pieces

namespace Http

/-- What the next read of a connection finds: bytes, of which it takes as many as it
asks for, or a failure. -/
inductive Arrival
  | bytes (piece : Str)
  | failed
deriving DecidableEq

/-- A connection on which reads can fail. -/
abbrev Connection : Type := List Arrival

/-- The bytes of an arrival. -/
def Arrival.data : Arrival → Str
  | .bytes piece => piece
  | .failed => []

/-- The bytes that arrive. -/
def Connection.data (conn : Connection) : Str :=
  conn.flatMap Arrival.data

/-- A connection on which no read fails. -/
def Socket.connection (sock : Socket) : Connection :=
  sock.map .bytes

/-- How the loop of `readFixSize` ends: the body is full, a read returned 0, or the
position went below the body. -/
inductive Filling
  | filled (body : Str) (conn : Connection)
  | ended
  | outside

/-- The loop of `readFixSize` on the body: `body` is what lies before the position and
`rest` is the number of bytes it waits for. -/
def fillLoop : Connection → Str → Nat → Filling
  | conn, body, 0 => .filled body conn
  | [], _, _ + 1 => .ended
  | .failed :: conn, body, rest + 1 =>
      if body = [] then .outside else fillLoop conn body.dropLast (rest + 2)
  | .bytes piece :: conn, body, rest + 1 =>
      if piece = [] then .ended
      else if piece.length ≤ rest + 1 then
        fillLoop conn (body ++ piece) (rest + 1 - piece.length)
      else .filled (body ++ piece.take (rest + 1)) (.bytes (piece.drop (rest + 1)) :: conn)

/-- What `recvRequest` returns, the connection afterwards, and the size of the body it
has allocated. -/
structure BodyRead (M : Type) where
  received : Received M
  conn : Connection
  allocated : Nat

section

variable {M : Type}

/-- `recvRequest` after its loop, for the length that `getContentLength` returned. -/
def recvBodyFrom (data : HttpRequest M) (unresolved : Str) (conn : Connection) (length : Int) :
    BodyRead M :=
  if 0 < length then
    let allocated := length.toNat
    if unresolved.length ≤ length then
      let rest := length.toNat - unresolved.length
      if 0 < rest then
        match fillLoop conn unresolved rest with
        | .ended => ⟨.null, [], allocated⟩
        | .outside => ⟨.undefined, [], allocated⟩
        | .filled body conn =>
            if toInt rest ≤ 0 then ⟨.null, [], allocated⟩
            else ⟨.request { data with body := body } [], conn, allocated⟩
      else ⟨.request { data with body := unresolved } [], conn, allocated⟩
    else
      ⟨.request { data with body := unresolved.take length.toNat }
        (unresolved.drop length.toNat), conn, allocated⟩
  else ⟨.request data unresolved, conn, 0⟩

/-- `recvRequest` after its loop. -/
def recvAfterHead [KeyedStore M] (lexicalCast : Str → Option UInt64) (data : HttpRequest M)
    (unresolved : Str) (conn : Connection) : BodyRead M :=
  match getContentLength lexicalCast data with
  | none => ⟨.undefined, [], 0⟩
  | some length => recvBodyFrom data unresolved conn length

/-- The body is the `n` bytes that follow the head, first those of the buffer and then
those of the connection; or the session is closed and there is no request.  For more
bytes than `max` it is closed, and no body is allocated. -/
structure BoundedAndExact (max : Nat) (data : HttpRequest M) (unresolved : Str)
    (conn : Connection) (n : Nat) (b : BodyRead M) : Prop where
  exact : (b.received = .null ∧ b.conn = []) ∨
    ∃ body unused, b.received = .request { data with body := body } unused ∧
      body.length = n ∧ body = (unresolved ++ conn.data).take n ∧
      b.conn.data = conn.data.drop (n - unresolved.length)
  bounded : max < n → b.received = .null ∧ b.allocated = 0

/-- How the reads for the rest of a body go; `failures` counts those that failed. -/
inductive Course
  | filled (failures : Nat)
  | ended
  | outside
deriving DecidableEq

/-- One failure more. -/
def Course.fail : Course → Course
  | .filled failures => .filled (failures + 1)
  | c => c

/-- The reads for `rest` bytes, with `before` bytes of the body before them. -/
def course : Connection → Nat → Nat → Course
  | _, _, 0 => .filled 0
  | [], _, _ + 1 => .ended
  | .failed :: _, 0, _ + 1 => .outside
  | .failed :: conn, before + 1, rest + 1 => (course conn before (rest + 2)).fail
  | .bytes piece :: conn, before, rest + 1 =>
      if piece = [] then .ended
      else if piece.length ≤ rest + 1 then
        course conn (before + piece.length) (rest + 1 - piece.length)
      else .filled 0

/-- No read fails before the rest has arrived; or one does and the connection ends
before the bytes arrive that make up for it; or the `int` for the rest is not positive,
which closes the session. -/
def Arrives (conn : Connection) (before rest : Nat) : Prop :=
  match course conn before rest with
  | .filled failures => failures = 0 ∨ toInt rest ≤ 0
  | .ended => True
  | .outside => False

/-! ## Filling a body -/

/-- What `fillLoop_spec` says about a connection. -/
def FillsAs (conn : Connection) (body : Str) (rest : Nat) : Course → Prop
  | .filled failures => ∃ body' conn', fillLoop conn body rest = .filled body' conn' ∧
      body'.length = body.length + rest ∧
      rest + failures ≤ conn.data.length ∧
      conn'.data = conn.data.drop (rest + failures) ∧
      (failures = 0 → body' = body ++ conn.data.take rest)
  | .ended => fillLoop conn body rest = .ended
  | .outside => fillLoop conn body rest = .outside

/-- A read that fails ends the loop. -/
theorem fillLoop_failed {conn : Connection}
    (ih : ∀ body rest, FillsAs conn body rest (course conn body.length rest))
    (body : Str) (rest : Nat) : FillsAs (.failed :: conn) body (rest + 1)
      (course (.failed :: conn) body.length (rest + 1)) := by
  have hdata : Connection.data (.failed :: conn) = conn.data := rfl
  cases body with
  | nil => rfl
  | cons b bs =>
      have hlen : (b :: bs).dropLast.length = bs.length := by simp
      have hfill : fillLoop (.failed :: conn) (b :: bs) (rest + 1) =
          fillLoop conn (b :: bs).dropLast (rest + 2) := by
        rw [fillLoop, if_neg (List.cons_ne_nil b bs)]
      have hcourse : course (.failed :: conn) (b :: bs).length (rest + 1) =
          (course conn bs.length (rest + 2)).fail := rfl
      have hrest := ih (b :: bs).dropLast (rest + 2)
      rw [hlen] at hrest
      rw [hcourse]
      cases hc : course conn bs.length (rest + 2) with
      | ended =>
          rw [hc] at hrest
          exact hfill.trans hrest
      | outside =>
          rw [hc] at hrest
          exact hfill.trans hrest
      | filled failures =>
          rw [hc] at hrest
          obtain ⟨body', conn', hrun, hsize, havail, hdrop, -⟩ := hrest
          have hsum : rest + 1 + (failures + 1) = rest + 2 + failures := by omega
          refine ⟨body', conn', hfill.trans hrun, ?_, ?_, ?_, fun h => by omega⟩
          · rw [hsize, hlen, List.length_cons]
            omega
          · rw [hdata, hsum]
            exact havail
          · rw [hdata, hsum]
            exact hdrop

/-- A read that gives bytes leaves fewer to read. -/
theorem fillLoop_bytes {conn : Connection}
    (ih : ∀ body rest, FillsAs conn body rest (course conn body.length rest))
    (piece body : Str) (rest : Nat) : FillsAs (.bytes piece :: conn) body (rest + 1)
      (course (.bytes piece :: conn) body.length (rest + 1)) := by
  have hdata : Connection.data (.bytes piece :: conn) = piece ++ conn.data := rfl
  rw [course]
  by_cases hempty : piece = []
  · rw [if_pos hempty]
    show fillLoop (.bytes piece :: conn) body (rest + 1) = .ended
    rw [fillLoop, if_pos hempty]
  rw [if_neg hempty]
  by_cases hle : piece.length ≤ rest + 1
  · rw [if_pos hle]
    have hfill : fillLoop (.bytes piece :: conn) body (rest + 1) =
        fillLoop conn (body ++ piece) (rest + 1 - piece.length) := by
      rw [fillLoop, if_neg hempty, if_pos hle]
    have hrest := ih (body ++ piece) (rest + 1 - piece.length)
    rw [List.length_append] at hrest
    cases hc : course conn (body.length + piece.length) (rest + 1 - piece.length) with
    | ended =>
        rw [hc] at hrest
        exact hfill.trans hrest
    | outside =>
        rw [hc] at hrest
        exact hfill.trans hrest
    | filled failures =>
        rw [hc] at hrest
        obtain ⟨body', conn', hrun, hsize, havail, hdrop, hexact⟩ := hrest
        refine ⟨body', conn', hfill.trans hrun, ?_, ?_, ?_, fun hzero => ?_⟩
        · rw [hsize, List.length_append]
          omega
        · rw [hdata, List.length_append]
          omega
        · have hskip : rest + 1 + failures - piece.length =
              rest + 1 - piece.length + failures := by omega
          have hnone : piece.drop (rest + 1 + failures) = [] :=
            List.drop_eq_nil_of_le (by omega)
          rw [hdrop, hdata, List.drop_append, hskip, hnone, List.nil_append]
        · rw [hexact hzero, hdata, List.take_append, List.take_of_length_le hle,
            List.append_assoc]
  · rw [if_neg hle]
    have hlt : rest + 1 ≤ piece.length := by omega
    refine ⟨body ++ piece.take (rest + 1), .bytes (piece.drop (rest + 1)) :: conn, ?_, ?_, ?_,
      ?_, fun _ => ?_⟩
    · rw [fillLoop, if_neg hempty, if_neg hle]
    · rw [List.length_append, List.length_take, Nat.min_eq_left hlt]
    · rw [hdata, List.length_append]
      omega
    · rw [hdata, Nat.add_zero, List.drop_append_of_le_length hlt]
      rfl
    · rw [hdata, List.take_append_of_le_length hlt]

/-- The loop goes as the reads go, and every failure takes one byte more from the
connection. -/
theorem fillLoop_spec (conn : Connection) (body : Str) (rest : Nat) :
    FillsAs conn body rest (course conn body.length rest) := by
  induction conn generalizing body rest with
  | nil =>
      cases rest with
      | zero => exact ⟨body, [], rfl, rfl, Nat.zero_le _, rfl, fun _ => by simp⟩
      | succ rest => rfl
  | cons arrival conn ih =>
      cases rest with
      | zero =>
          have hcourse : course (arrival :: conn) body.length 0 = .filled 0 := by
            cases arrival <;> cases body <;> rfl
          have hfill : fillLoop (arrival :: conn) body 0 = .filled body (arrival :: conn) := by
            cases arrival <;> rfl
          rw [hcourse]
          exact ⟨body, arrival :: conn, hfill, rfl, Nat.zero_le _, rfl, fun _ => by simp⟩
      | succ rest =>
          cases arrival with
          | failed => exact fillLoop_failed ih body rest
          | bytes piece => exact fillLoop_bytes ih piece body rest

/-! ## The length -/

/-- The length is an `int64_t`. -/
theorem toInt64_of_lt {n : UInt64} (h : n.toNat < 2 ^ 63) : n.toInt64.toInt = n.toNat := by
  have hbits : n.toInt64.toInt = n.toBitVec.toInt := rfl
  rw [hbits, BitVec.toInt_eq_toNat_of_lt (by simpa using by omega)]
  rfl

/-- A length of 2^63 or more is a negative `int64_t`. -/
theorem toInt64_of_ge {n : UInt64} (h : 2 ^ 63 ≤ n.toNat) : n.toInt64.toInt < 0 := by
  have hbits : n.toInt64.toInt = n.toBitVec.toInt := rfl
  have hnat : n.toBitVec.toNat = n.toNat := rfl
  have hlt := n.toNat_lt
  rw [hbits, BitVec.toInt_eq_toNat_cond, hnat, if_neg (by omega)]
  omega

/-! ## The body -/

section Body

variable {M : Type} {data : HttpRequest M} {unresolved : Str} {conn : Connection}

/-- A request with its body and nothing else changed is returned. -/
theorem exact_request {max n : Nat} {body unused : Str} {conn' : Connection} {allocated : Nat}
    (hmax : n ≤ max) :
    BoundedAndExact max data unresolved conn n
        ⟨.request { data with body := body } unused, conn', allocated⟩ ↔
      body.length = n ∧ body = (unresolved ++ conn.data).take n ∧
        conn'.data = conn.data.drop (n - unresolved.length) := by
  constructor
  · rintro ⟨hexact, -⟩
    rcases hexact with ⟨hnull, -⟩ | ⟨body', unused', heq, hexact⟩
    · cases hnull
    · obtain ⟨hreq, -⟩ := Received.request.inj heq
      obtain rfl : body = body' := congrArg HttpRequest.body hreq
      exact hexact
  · exact fun hexact => ⟨Or.inr ⟨body, unused, rfl, hexact⟩, fun hlt => by omega⟩

/-- A body whose bytes were all read with the head. -/
theorem buffered_exact {max n : Nat} (hmax : n ≤ max) (hpos : 0 < n)
    (hn : n ≤ unresolved.length) :
    BoundedAndExact max data unresolved conn n (recvBodyFrom data unresolved conn n) := by
  have htake : (unresolved ++ conn.data).take n = unresolved.take n :=
    List.take_append_of_le_length hn
  have hsub : n - unresolved.length = 0 := by omega
  unfold recvBodyFrom
  rw [if_pos (by omega)]
  by_cases heq : unresolved.length = n
  · have hall : unresolved = unresolved.take n := (List.take_of_length_le (by omega)).symm
    rw [if_pos (by omega)]
    dsimp only
    rw [Int.toNat_natCast, if_neg (by omega), exact_request hmax]
    refine ⟨heq, by rw [htake, ← hall], by rw [hsub, List.drop_zero]⟩
  · rw [if_neg (by omega), exact_request hmax, Int.toNat_natCast]
    refine ⟨?_, htake.symm, by rw [hsub, List.drop_zero]⟩
    rw [List.length_take]
    omega

/-- A body of which some bytes have still to be read. -/
theorem awaited_exact_iff {max n : Nat} (hmax : n ≤ max) (hn : unresolved.length < n) :
    BoundedAndExact max data unresolved conn n (recvBodyFrom data unresolved conn n) ↔
      Arrives conn unresolved.length (n - unresolved.length) := by
  have hspec := fillLoop_spec conn unresolved (n - unresolved.length)
  unfold recvBodyFrom Arrives
  rw [if_pos (by omega), if_pos (by omega)]
  dsimp only
  rw [Int.toNat_natCast, if_pos (by omega)]
  cases hc : course conn unresolved.length (n - unresolved.length) with
  | ended =>
      rw [hc] at hspec
      have hfill : fillLoop conn unresolved (n - unresolved.length) = .ended := hspec
      simp only [hfill, iff_true]
      exact ⟨Or.inl ⟨rfl, rfl⟩, fun hlt => by omega⟩
  | outside =>
      rw [hc] at hspec
      have hfill : fillLoop conn unresolved (n - unresolved.length) = .outside := hspec
      simp only [hfill, iff_false]
      rintro ⟨hexact, -⟩
      rcases hexact with ⟨hnull, -⟩ | ⟨body, unused, heq, -⟩
      · cases hnull
      · cases heq
  | filled failures =>
      rw [hc] at hspec
      obtain ⟨body, conn', hfill, hsize, havail, hdrop, hexact⟩ := hspec
      simp only [hfill]
      by_cases hint : toInt (n - unresolved.length) ≤ 0
      · rw [if_pos hint]
        exact iff_of_true ⟨Or.inl ⟨rfl, rfl⟩, fun hlt => by omega⟩ (Or.inr hint)
      · rw [if_neg hint, exact_request hmax, or_iff_left hint]
        constructor
        · rintro ⟨-, -, hrest⟩
          -- every failure has taken one byte too many
          have hlen := congrArg List.length (hdrop.symm.trans hrest)
          rw [List.length_drop, List.length_drop] at hlen
          omega
        · intro hzero
          subst hzero
          have hall : unresolved.take n = unresolved := List.take_of_length_le (by omega)
          refine ⟨by omega, ?_, by rw [hdrop, Nat.add_zero]⟩
          rw [hexact rfl, List.take_append, hall]

/-- A length that is not positive: there is no body. -/
theorem recvBodyFrom_of_nonpos {length : Int} (h : length ≤ 0) :
    recvBodyFrom data unresolved conn length = ⟨.request data unresolved, conn, 0⟩ := by
  rw [recvBodyFrom, if_neg (by omega)]

/-- A positive length allocates the body. -/
theorem allocated_of_pos {length : Int} (h : 0 < length) :
    (recvBodyFrom data unresolved conn length).allocated = length.toNat := by
  unfold recvBodyFrom
  rw [if_pos h]
  dsimp only
  split
  · split
    · split
      · rfl
      · rfl
      · split <;> rfl
    · rfl
  · rfl

/-! ## Connections on which no read fails -/

/-- On the pieces of a socket the loop reads what `readFixLoop` does. -/
theorem fillLoop_connection (sock : Socket) : ∀ (body : Str) (rest : Nat),
    fillLoop sock.connection body rest =
      match sock.readFixLoop rest with
      | none => .ended
      | some r => .filled (body ++ r.1) (Socket.connection r.2) := by
  induction sock with
  | nil =>
      intro body rest
      cases rest with
      | zero => simp [Socket.connection, fillLoop, Socket.readFixLoop]
      | succ rest => rfl
  | cons piece sock ih =>
      intro body rest
      cases rest with
      | zero => simp [Socket.connection, fillLoop, Socket.readFixLoop]
      | succ rest =>
          have hconn : Socket.connection (piece :: sock) = .bytes piece :: Socket.connection sock :=
            rfl
          rw [hconn, fillLoop, Socket.readFixLoop]
          by_cases hempty : piece = []
          · rw [if_pos hempty, if_pos hempty]
          rw [if_neg hempty, if_neg hempty]
          by_cases hle : piece.length ≤ rest + 1
          · rw [if_pos hle, if_pos hle, ih]
            cases Socket.readFixLoop sock (rest + 1 - piece.length) with
            | none => rfl
            | some r => simp
          · rw [if_neg hle, if_neg hle]
            rfl

/-- Where no read fails, the body is read as `recvBody` reads it. -/
theorem recvBodyFrom_connection (data : HttpRequest M) (unresolved : Str) (sock : Socket)
    (length : Int) :
    recvBodyFrom data unresolved sock.connection length =
      ⟨(recvBody data unresolved sock length).1,
        Socket.connection (recvBody data unresolved sock length).2,
        if 0 < length then length.toNat else 0⟩ := by
  unfold recvBodyFrom recvBody
  by_cases hpos : 0 < length
  · rw [if_pos hpos, if_pos hpos, if_pos hpos]
    by_cases hle : (unresolved.length : Int) ≤ length
    · rw [if_pos hle, if_pos hle]
      dsimp only
      by_cases hrest : 0 < length.toNat - unresolved.length
      · rw [if_pos hrest, if_pos hrest, fillLoop_connection, Socket.readFixSize]
        cases sock.readFixLoop (length.toNat - unresolved.length) with
        | none => rfl
        | some r =>
            dsimp only
            split <;> rfl
      · rw [if_neg hrest, if_neg hrest]
    · rw [if_neg hle, if_neg hle]
  · rw [if_neg hpos, if_neg hpos, if_neg hpos]

/-- **`recvRequest` after its loop.**  For a connection whose bytes finish a head of which
the callbacks make a request without error, `recvRequest` returns what is read after the
head; the bytes that follow the head are those left in the buffer and those still to
come. -/
theorem recvRequest_afterHead [KeyedStore M] {σ : Type} {c : RecvConfig σ} {sock : Socket}
    {t : Target M} (hB : 0 < c.bufferSize) (hpieces : AllNonempty sock)
    (hfin : (headScan c sock.flatten).status = .finished)
    (hmade : made M c (startOf c.bufferSize sock) sock.flatten = some t) (herror : t.error = 0) :
    t.data.body = [] ∧ ∃ (unresolved : Str) (rest : Socket),
      unresolved ++ rest.flatten = sock.flatten.drop (headScan c sock.flatten).stop ∧
      (recvRequest c sock : Received M × Socket).1 =
        (recvAfterHead c.lexicalCast t.data unresolved (Socket.connection rest)).received := by
  have hbody : t.data.body = [] := (runCallbacks_keeps hmade).2.1
  have hlast : (headScan c sock.flatten).stop - 1 < sock.flatten.length := by
    have hpos : 0 < (headScan c sock.flatten).stop := (scan_stop _ _ _ _ _).2.2.2 hfin
    have hle := headScan_le c sock.flatten
    omega
  obtain ⟨hend, hwithin⟩ := endOf_bounds hB hlast
  let stop := endOf c.bufferSize sock ((headScan c sock.flatten).stop - 1)
  refine ⟨hbody, (sock.flatten.take stop).drop (headScan c sock.flatten).stop,
    dropFront stop sock, ?_, ?_⟩
  · have hhead : (headScan c sock.flatten).stop ≤ (sock.flatten.take stop).length := by
      rw [List.length_take]
      omega
    rw [flatten_dropFront, ← List.drop_append_of_le_length hhead, List.take_append_drop]
  · rw [(recvRequest_spec hB hpieces hfin).1 t hmade herror, recvAfterHead]
    cases getContentLength c.lexicalCast t.data with
    | none => rfl
    | some length =>
        dsimp only
        rw [recvBodyFrom_connection]

/-- A request to `/` with this `content-length` and nothing else. -/
def postOf (value : Str) : HttpRequest MapType :=
  { HttpRequest.new 0x11 true with
    method := .POST
    headers := ⟨[(ascii "content-length", value)]⟩ }

/-- The header of the request is found. -/
theorem find_postOf (value : Str) :
    KeyedStore.find (postOf value).headers (ascii "content-length") = some (some value) := by
  have hweak : OrderedMaps.StrictWeak caseInsensitiveLess
      [ascii "content-length", ascii "content-length"] := by
    decide +kernel
  have hsame : OrderedMaps.equivalent caseInsensitiveLess (ascii "content-length")
      (ascii "content-length") = true := by
    decide +kernel
  change OrderedMaps.OrderedMap.find caseInsensitiveLess _ _ = _
  have hkeys : OrderedMaps.OrderedMap.keys (postOf value).headers = [ascii "content-length"] :=
    rfl
  rw [OrderedMaps.OrderedMap.find, hkeys, if_pos hweak]
  simp [OrderedMaps.OrderedMap.valueWhere, postOf, hsame]

end Body

end

end Http

end Agent
