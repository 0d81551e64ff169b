import GServer.HttpParser
import Mathlib

/-!
# Receiving a request

A connection is the list of pieces in which its bytes arrive: a `read` takes the
next piece, or as much of it as was asked for, and nothing at the end.
`recvRequest` reads and parses until the head is complete, and then reads what is
missing of the body.  It is a function of the connection; what a call has read into
its buffer and neither parsed nor copied into the body is gone when it returns.

Memory is not exhausted, and `close` leaves a connection with nothing to read.
-/

namespace Agent

namespace Http

/-- A connected socket: the pieces that arrive. -/
abbrev Socket : Type := List Str

/-- `SocketStream::read`. -/
def Socket.read (n : Nat) : Socket → Str × Socket
  | [] => ([], [])
  | piece :: rest =>
      if piece.length ≤ n then (piece, rest) else (piece.take n, piece.drop n :: rest)

/-- The loop of `Stream::readFixSize`; `none` where a read returns nothing. -/
def Socket.readFixLoop : Socket → Nat → Option (Str × Socket)
  | sock, 0 => some ([], sock)
  | [], _ + 1 => none
  | piece :: rest, n + 1 =>
      if piece = [] then none
      else if piece.length ≤ n + 1 then
        (readFixLoop rest (n + 1 - piece.length)).map fun r => (piece ++ r.1, r.2)
      else some (piece.take (n + 1), piece.drop (n + 1) :: rest)

/-- A length returned as an `int`. -/
@[irreducible] def toInt (length : Nat) : Int :=
  Int.bmod length (2 ^ 32)

/-- `Stream::readFixSize`: the returned `int`, the bytes and the connection. -/
def Socket.readFixSize (sock : Socket) (length : Nat) : Int × Str × Socket :=
  match readFixLoop sock length with
  | none => (0, [], [])
  | some r => (toInt length, r.1, r.2)

/-- What `recvRequest` works with: the tables of the parser, `boost::lexical_cast` and
`http.request.buffer_size`, which an `int` can hold. -/
structure RecvConfig (σ : Type) where
  tok : Tokenizer σ
  lexicalCast : Str → Option UInt64
  bufferSize : Nat
  bufferSize_lt : bufferSize < 2 ^ 31

/-- How the loop of `recvRequest` ends. -/
inductive Head (σ M : Type)
  | finished (parser : HttpRequestParser σ M) (unresolved : Str) (sock : Socket)
  | null
  | undefined

/-- How `recvRequest` ends; `unused` are the bytes it has read and not used. -/
inductive Received (M : Type)
  | request (r : HttpRequest M) (unused : Str)
  | null
  | undefined
deriving DecidableEq

/-- The returned request, if any. -/
def Received.request? {M : Type} : Received M → Option (HttpRequest M)
  | .request r _ => some r
  | _ => none

section Recv

variable {σ M : Type} [KeyedStore M]

/-- The loop of `recvRequest`, for at most `fuel` turns. -/
def recvLoop (c : RecvConfig σ) :
    Nat → HttpRequestParser σ M → Str → Socket → Head σ M
  | 0, _, _, _ => .undefined
  | fuel + 1, parser, unresolved, sock =>
      let (bytes, sock) := sock.read (c.bufferSize - unresolved.length)
      if bytes = [] then .null
      else
        let buff := unresolved ++ bytes
        match parser.execute c.tok buff with
        | none => .undefined
        | some (parser, nparse) =>
            if parser.hasError then .null
            else
              let unresolved := buff.drop nparse
              if unresolved.length = c.bufferSize then .null
              else if parser.isFinished then .finished parser unresolved sock
              else recvLoop c fuel parser unresolved sock

/-- The part of `recvRequest` after the loop, for a body of `length` bytes. -/
def recvBody (data : HttpRequest M) (unresolved : Str) (sock : Socket) (length : Int) :
    Received M × Socket :=
  if 0 < length then
    if unresolved.length ≤ length then
      let rest := length.toNat - unresolved.length
      if 0 < rest then
        let (rt, bytes, sock) := sock.readFixSize rest
        if rt ≤ 0 then (.null, [])
        else (.request { data with body := unresolved ++ bytes } [], sock)
      else (.request { data with body := unresolved } [], sock)
    else
      (.request { data with body := unresolved.take length.toNat }
        (unresolved.drop length.toNat), sock)
  else (.request data unresolved, sock)

/-- `HttpSession::recvRequest`: the result and the connection afterwards.  Every turn of
the loop takes at least one byte from the connection. -/
def recvRequest (c : RecvConfig σ) (sock : Socket) : Received M × Socket :=
  match recvLoop c (sock.flatten.length + 1) (HttpRequestParser.new c.tok) [] sock with
  | .null => (.null, [])
  | .undefined => (.undefined, [])
  | .finished parser unresolved sock =>
      match getContentLength c.lexicalCast parser.target.data with
      | none => (.undefined, [])
      | some length => recvBody parser.target.data unresolved sock length

end Recv

/-! ## A part of the generated machine -/

/-- The bytes that start a header field name (state 13 of the generated code). -/
def startsField (b : UInt8) : Bool :=
  b = 33 || b = 124 || b = 126 || (1 ≤ b && b ≤ 8) || (11 ≤ b && b ≤ 31 && b != 13) ||
    (35 ≤ b && b ≤ 39) || (42 ≤ b && b ≤ 43) || (45 ≤ b && b ≤ 46) || (48 ≤ b && b ≤ 57) ||
    (65 ≤ b && b ≤ 90) || (94 ≤ b && b ≤ 122)

/-- The bytes that go on with a header field name (state 14). -/
def continuesField (b : UInt8) : Bool :=
  b = 10 || b = 13 || startsField b

/-- The upper-case letters and digits of a method. -/
def isMethodByte (b : UInt8) : Bool :=
  (48 ≤ b && b ≤ 57) || (65 ≤ b && b ≤ 90)

/-- The states that the generated machine goes through for a method of at most four
letters, the target `/`, the version and the header fields; other bytes lead to the
error state here. -/
def rootTokenizer : Tokenizer Nat where
  start := 1
  move
  | 1, b => if isMethodByte b then .goto [.mark] 2 else .error
  | 2, b =>
      if b = 32 then .goto [.requestMethod] 3
      else if isMethodByte b then .goto [] 175
      else .error
  | 175, b =>
      if b = 32 then .goto [.requestMethod] 3
      else if isMethodByte b then .goto [] 176
      else .error
  | 176, b =>
      if b = 32 then .goto [.requestMethod] 3
      else if isMethodByte b then .goto [] 177
      else .error
  | 177, b => if b = 32 then .goto [.requestMethod] 3 else .error
  | 3, b => if b = 47 then .goto [.mark] 33 else .error
  | 33, b => if b = 32 then .goto [.requestPath, .requestUri] 4 else .error
  | 4, b => if b = 72 then .goto [.mark] 5 else .error
  | 5, b => if b = 84 then .goto [] 6 else .error
  | 6, b => if b = 84 then .goto [] 7 else .error
  | 7, b => if b = 80 then .goto [] 8 else .error
  | 8, b => if b = 47 then .goto [] 9 else .error
  | 9, b => if b = 49 then .goto [] 10 else .error
  | 10, b => if b = 46 then .goto [] 11 else .error
  | 11, b => if 48 ≤ b ∧ b ≤ 49 then .goto [] 12 else .error
  | 12, b =>
      if b = 10 then .goto [.httpVersion] 13
      else if b = 13 then .goto [.httpVersion] 17
      else .error
  | 13, b =>
      if b = 10 then .done [.startField]
      else if b = 13 then .goto [.startField] 18
      else if startsField b then .goto [.startField] 14
      else .error
  | 14, b =>
      if b = 58 then .goto [.writeField] 15
      else if continuesField b then .goto [] 14
      else .error
  | 15, b =>
      if b = 0 ∨ b = 127 then .error
      else if b = 9 ∨ b = 32 then .goto [.startValue] 15
      else if b = 10 then .goto [.startValue, .writeValue] 13
      else if b = 13 then .goto [.startValue, .writeValue] 17
      else .goto [.startValue] 16
  | 16, b =>
      if b = 0 ∨ b = 127 then .error
      else if b = 10 then .goto [.writeValue] 13
      else if b = 13 then .goto [.writeValue] 17
      else .goto [] 16
  | 17, b => if b = 10 then .goto [] 13 else .error
  | 18, b =>
      if b = 10 then .done []
      else if b = 58 then .goto [.writeField] 15
      else if b = 13 ∨ startsField b then .goto [] 14
      else .error
  | _, _ => .error

/-- The value of a decimal number. -/
def decimal (s : Str) : Option UInt64 :=
  if s ≠ [] ∧ s.all (fun b => 48 ≤ b && b ≤ 57) then
    some (s.foldl (fun n b => n * 10 + (b - 48).toUInt64) 0)
  else none

/-- The machine for the target `/` with the default buffer size. -/
def rootConfig : RecvConfig Nat where
  tok := rootTokenizer
  lexicalCast := decimal
  bufferSize := 4 * 1024
  bufferSize_lt := by decide

end Http

end Agent
