import GServer.Http

/-!
# The request parser

`http_parser_execute` runs the machine of `http11_parser.rl` over one buffer.  It
keeps the state of the machine between calls but sets `mark`, `field_start` and
`field_len` to zero on entry, and all of these, with `query_start`, are offsets
into the buffer of the current call.  The callbacks build the request.

The tables of the generated machine are a parameter.  Callbacks do not act on the
machine, so one run first collects them and `execute` then makes them in order.
`requestUri` and the callback at the end of the head do nothing in this program.
The assertions at the end of a run hold for every offset that a run sets.
-/

namespace Agent

namespace Http

/-- The bytes of a literal. -/
def ascii (s : String) : Str :=
  s.toList.map fun c => UInt8.ofNat c.toNat

/-- `HTTP_METHOD_MAP`. -/
def httpMethodMap : List (HttpMethod × String) :=
  [(.DELETE, "DELETE"), (.GET, "GET"), (.HEAD, "HEAD"), (.POST, "POST"), (.PUT, "PUT"),
    (.CONNECT, "CONNECT"), (.OPTIONS, "OPTIONS"), (.TRACE, "TRACE"),
    (.COPY, "COPY"), (.LOCK, "LOCK"), (.MKCOL, "MKCOL"), (.MOVE, "MOVE"),
    (.PROPFIND, "PROPFIND"), (.PROPPATCH, "PROPPATCH"), (.SEARCH, "SEARCH"),
    (.UNLOCK, "UNLOCK"), (.BIND, "BIND"), (.REBIND, "REBIND"), (.UNBIND, "UNBIND"),
    (.ACL, "ACL"),
    (.REPORT, "REPORT"), (.MKACTIVITY, "MKACTIVITY"), (.CHECKOUT, "CHECKOUT"),
    (.MERGE, "MERGE"),
    (.MSEARCH, "M-SEARCH"), (.NOTIFY, "NOTIFY"), (.SUBSCRIBE, "SUBSCRIBE"),
    (.UNSUBSCRIBE, "UNSUBSCRIBE"),
    (.PATCH, "PATCH"), (.PURGE, "PURGE"),
    (.MKCALENDAR, "MKCALENDAR"),
    (.LINK, "LINK"), (.UNLINK, "UNLINK"),
    (.SOURCE, "SOURCE")]

/-- `strncmp(a, b, n) == 0`; beyond its end a string reads as zero. -/
def strncmpEq : Str → Str → Nat → Bool
  | _, _, 0 => true
  | a, b, n + 1 =>
      a.headD 0 == b.headD 0 && (a.headD 0 == 0 || strncmpEq a.tail b.tail n)

/-- `CharsToHttpMethod`. -/
def charsToHttpMethod (m : Str) : HttpMethod :=
  match httpMethodMap.find? fun e => strncmpEq (ascii e.2) m (ascii e.2).length with
  | some e => e.1
  | none => .INVALID_METHOD

/-! ## The machine -/

/-- The actions of `http11_parser.rl`, but for those of the end of the head. -/
inductive Action
  | mark
  | startField
  | writeField
  | startValue
  | writeValue
  | requestMethod
  | requestUri
  | fragment
  | startQuery
  | queryString
  | httpVersion
  | requestPath
deriving DecidableEq

/-- A transition: to the error state, to another state, or by `done` out of the
machine. -/
inductive Move (σ : Type)
  | error
  | goto (actions : List Action) (target : σ)
  | done (actions : List Action)

/-- The tables of the generated machine. -/
structure Tokenizer (σ : Type) where
  start : σ
  move : σ → UInt8 → Move σ

/-- `http_parser::cs`: the error state is 0, a state from `first_final` on is final. -/
inductive Status (σ : Type)
  | error
  | running (s : σ)
  | finished
deriving DecidableEq

/-- The offsets of `http_parser`; `query_start` is not initialised, and no run reads it
before `startQuery`. -/
structure Registers where
  mark : Nat
  fieldStart : Nat
  fieldLen : Nat
  queryStart : Nat
deriving DecidableEq

/-- `http_parser`. -/
structure HttpParser (σ : Type) where
  cs : Status σ
  registers : Registers

/-- `http_parser_init`. -/
def httpParserInit {σ : Type} (tok : Tokenizer σ) : HttpParser σ :=
  { cs := .running tok.start, registers := ⟨0, 0, 0, 0⟩ }

/-- A callback and the bytes it is given; `none` where a length would be negative. -/
inductive Callback
  | requestMethod (text : Str)
  | requestUri
  | fragment (text : Option Str)
  | requestPath (text : Option Str)
  | queryString (text : Option Str)
  | httpVersion (text : Option Str)
  | httpField (field : Str) (value : Option Str)
deriving DecidableEq

/-- The bytes from offset `a` to `p`. -/
def text (buffer : Str) (a p : Nat) : Option Str :=
  if a ≤ p then some ((buffer.take p).drop a) else none

/-- What an action does to the offsets at `p`. -/
def Action.setRegisters (p : Nat) (r : Registers) : Action → Registers
  | .mark | .startValue => { r with mark := p }
  | .startField => { r with fieldStart := p }
  | .writeField => { r with fieldLen := p - r.fieldStart }
  | .startQuery => { r with queryStart := p }
  | _ => r

/-- The callback that an action makes at `p`.  A method ends at the byte at `p`, which
is a space and ends every comparison with it; a field name ends before `p`. -/
def Action.callback? (buffer : Str) (p : Nat) (r : Registers) : Action → Option Callback
  | .requestMethod => some (.requestMethod ((buffer.take (p + 1)).drop r.mark))
  | .requestUri => some .requestUri
  | .fragment => some (.fragment (text buffer r.mark p))
  | .requestPath => some (.requestPath (text buffer r.mark p))
  | .queryString => some (.queryString (text buffer r.queryStart p))
  | .httpVersion => some (.httpVersion (text buffer r.mark p))
  | .writeValue =>
      some (.httpField (((buffer.take p).drop r.fieldStart).take r.fieldLen)
        (text buffer r.mark p))
  | _ => none

/-- The actions of one transition, in order. -/
def perform (buffer : Str) (p : Nat) : List Action → Registers → Registers × List Callback
  | [], r => (r, [])
  | a :: as, r =>
      let rest := perform buffer p as (a.setRegisters p r)
      (rest.1, (a.callback? buffer p r).toList ++ rest.2)

/-- What a run over a buffer leaves. -/
structure Executed (σ : Type) where
  cs : Status σ
  registers : Registers
  callbacks : List Callback
  nread : Nat

/-- The generated code, at offset `p` with the bytes `rest` of the buffer to come. -/
def execLoop {σ : Type} (tok : Tokenizer σ) (buffer : Str) :
    Str → Nat → σ → Registers → Executed σ
  | [], p, s, r => ⟨.running s, r, [], p⟩
  | b :: rest, p, s, r =>
      match tok.move s b with
      | .error => ⟨.error, r, [], p⟩
      | .done actions =>
          let here := perform buffer p actions r
          ⟨.finished, here.1, here.2, p + 1⟩
      | .goto actions s' =>
          let here := perform buffer p actions r
          let later := execLoop tok buffer rest (p + 1) s' here.1
          { later with callbacks := here.2 ++ later.callbacks }

/-- `http_parser_execute`.  In the error state nothing is read; a finished parser is
not run again. -/
def httpParserExecute {σ : Type} (tok : Tokenizer σ) (parser : HttpParser σ) (buffer : Str) :
    Executed σ :=
  let r := { parser.registers with mark := 0, fieldLen := 0, fieldStart := 0 }
  match parser.cs with
  | .running s => execLoop tok buffer buffer 0 s r
  | cs => ⟨cs, r, [], 0⟩

/-! ## The callbacks -/

/-- The members `m_data` and `m_error` of `HttpRequestParser`. -/
structure Target (M : Type) where
  data : HttpRequest M
  error : Nat
deriving DecidableEq

section Callbacks

variable {M : Type} [KeyedStore M]

def onRequestMethod (t : Target M) (text : Str) : Option (Target M) :=
  let m := charsToHttpMethod text
  if m = .INVALID_METHOD then some { t with error := 1000 }
  else some { t with data := { t.data with method := m } }

def onRequestFragment (t : Target M) (text : Option Str) : Option (Target M) :=
  text.map fun v => { t with data := { t.data with fragment := v } }

def onRequestPath (t : Target M) (text : Option Str) : Option (Target M) :=
  text.map fun v => { t with data := { t.data with path := v } }

def onRequestQuery (t : Target M) (text : Option Str) : Option (Target M) :=
  text.map fun v => { t with data := { t.data with query := v } }

def onRequestVersion (t : Target M) (text : Option Str) : Option (Target M) :=
  text.map fun v =>
    if strncmpEq v (ascii "HTTP/1.1") v.length then
      { t with data := { t.data with version := 0x11 } }
    else if strncmpEq v (ascii "HTTP/1.0") v.length then
      { t with data := { t.data with version := 0x10 } }
    else { t with error := 1001 }

def onRequestHttpField (t : Target M) (field : Str) (value : Option Str) : Option (Target M) :=
  if field.length = 0 then some t
  else
    value.bind fun v => (t.data.setHeader field v).map fun data => { t with data := data }

/-- Make a callback; `none` where it throws (`std::string` refuses the length) or has no
defined result. -/
def Callback.run (t : Target M) : Callback → Option (Target M)
  | .requestMethod text => onRequestMethod t text
  | .requestUri => some t
  | .fragment text => onRequestFragment t text
  | .requestPath text => onRequestPath t text
  | .queryString text => onRequestQuery t text
  | .httpVersion text => onRequestVersion t text
  | .httpField field value => onRequestHttpField t field value

/-- Make callbacks in order. -/
def runCallbacks (t : Target M) (callbacks : List Callback) : Option (Target M) :=
  callbacks.foldlM Callback.run t

end Callbacks

/-! ## `HttpRequestParser` -/

/-- `HttpRequestParser`. -/
structure HttpRequestParser (σ M : Type) where
  parser : HttpParser σ
  target : Target M

namespace HttpRequestParser

variable {σ M : Type} [KeyedStore M]

/-- `HttpRequestParser::HttpRequestParser`. -/
def new (tok : Tokenizer σ) : HttpRequestParser σ M where
  parser := httpParserInit tok
  target := { data := HttpRequest.new 0x11 true, error := 0 }

/-- `HttpRequestParser::execute`: the parser and how many bytes it has taken. -/
def execute (tok : Tokenizer σ) (p : HttpRequestParser σ M) (buffer : Str) :
    Option (HttpRequestParser σ M × Nat) :=
  let e := httpParserExecute tok p.parser buffer
  (runCallbacks p.target e.callbacks).map fun target =>
    ({ parser := { cs := e.cs, registers := e.registers }, target := target }, e.nread)

/-- `HttpRequestParser::isFinished`. -/
def isFinished (p : HttpRequestParser σ M) : Bool :=
  match p.parser.cs with
  | .finished => true
  | _ => false

/-- `HttpRequestParser::hasError`. -/
def hasError (p : HttpRequestParser σ M) : Bool :=
  p.target.error != 0 ||
    match p.parser.cs with
    | .error => true
    | _ => false

end HttpRequestParser

/-- `HttpRequestParser::getContentLength`, converted to `int64_t`; `lexicalCast` is
`boost::lexical_cast<uint64_t>`, `none` where it throws. -/
def getContentLength {M : Type} [KeyedStore M] (lexicalCast : Str → Option UInt64)
    (r : HttpRequest M) : Option Int :=
  (KeyedStore.find r.headers (ascii "content-length")).map fun found =>
    match found with
    | none => 0
    | some v => ((lexicalCast v).getD 0).toInt64.toInt

/-! ## Where comparisons stop -/

/-- A comparison with a literal that holds neither a space nor a zero does not go beyond a
space. -/
theorem strncmpEq_space {lit : Str} (h32 : 32 ∉ lit) (token x : Str) (n : Nat)
    (hn : n ≤ lit.length) :
    strncmpEq lit (token ++ 32 :: x) n = strncmpEq lit (token ++ [32]) n := by
  induction token generalizing lit n with
  | nil =>
      cases n with
      | zero => rfl
      | succ n =>
          cases lit with
          | nil => simp at hn
          | cons c lit =>
              have hc : (c == 32) = false :=
                beq_eq_false_iff_ne.mpr fun h => h32 (h ▸ List.mem_cons_self)
              simp only [strncmpEq, List.nil_append, List.headD_cons, hc, Bool.false_and]
  | cons d token ih =>
      cases n with
      | zero => rfl
      | succ n =>
          cases lit with
          | nil => simp at hn
          | cons c lit =>
              have hrest := ih (fun h => h32 (List.mem_cons_of_mem c h)) n (by simpa using hn)
              simp only [strncmpEq, List.cons_append, List.headD_cons, List.tail_cons, hrest]

/-- **`CharsToHttpMethod` stops at the space.**  Whatever follows it in the buffer does
not matter. -/
theorem charsToHttpMethod_space (token x : Str) :
    charsToHttpMethod (token ++ 32 :: x) = charsToHttpMethod (token ++ [32]) := by
  have hname : ∀ e ∈ httpMethodMap, 32 ∉ ascii e.2 := by decide
  have hfind : ∀ table : List (HttpMethod × String), (∀ e ∈ table, 32 ∉ ascii e.2) →
      (table.find? fun e => strncmpEq (ascii e.2) (token ++ 32 :: x) (ascii e.2).length) =
      table.find? fun e => strncmpEq (ascii e.2) (token ++ [32]) (ascii e.2).length := by
    intro table
    induction table with
    | nil => exact fun _ => rfl
    | cons e table ih =>
        intro htable
        rw [List.find?_cons, List.find?_cons,
          strncmpEq_space (htable e List.mem_cons_self) token x _ (Nat.le_refl _),
          ih fun e' he' => htable e' (List.mem_cons_of_mem e he')]
  rw [charsToHttpMethod, charsToHttpMethod, hfind httpMethodMap hname]

end Http

end Agent
