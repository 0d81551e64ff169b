import GServer.RequestPhases

/-!
# The parts of a request

A request is put together from left to right: method and scheme, path and query,
fragment, version, header fields, the empty line.  Each stage is a structure over the
one before it whose fields say of which bytes its parts consist, so a `RequestHead` is
a head as the machine takes it.  `bytes` is what stands in the buffer and `callbacks`
what the machine has made of it by then.

Field names are what `token` is in the generated code: they may hold the bytes of a
line end, and a carriage return alone is a name.
-/

namespace Agent

open RangeTables

namespace Http

/-- All bytes are of a class. -/
def Bytes (c : ByteClass) (s : Str) : Prop :=
  ∀ b ∈ s, c.has b.toNat = true

/-- Bytes of a class and whole percent escapes. -/
inductive Escaped (c : ByteClass) : Str → Prop
  | nil : Escaped c []
  | plain {b : UInt8} {s : Str} (hb : c.has b.toNat = true) (hs : Escaped c s) :
      Escaped c (b :: s)
  | escape {h l : UInt8} {s : Str} (hh : xdigit.has h.toNat = true)
      (hl : xdigit.has l.toNat = true) (hs : Escaped c s) : Escaped c (37 :: h :: l :: s)

/-- One to twenty upper-case letters and digits. -/
structure MethodText (m : Str) : Prop where
  bytes : Bytes upperDigit m
  pos : 1 ≤ m.length
  le : m.length ≤ 20

/-- A scheme: a letter, then letters, digits and a few signs. -/
inductive SchemeText : Str → Prop
  | cons {b : UInt8} {s : Str} (hb : alpha.has b.toNat = true) (hs : Bytes schemeChar s) :
      SchemeText (b :: s)

/-- How a line ends. -/
inductive LineEnd
  | lf
  | crlf
deriving DecidableEq

def LineEnd.bytes : LineEnd → Str
  | .lf => [10]
  | .crlf => [13, 10]

/-- The name of a field: it does not begin as the end of the head does. -/
inductive FieldName : Str → Prop
  | plain {b : UInt8} {s : Str} (hb : tokenStart.has b.toNat = true) (hs : Bytes token s) :
      FieldName (b :: s)
  | bare : FieldName [13]
  | afterCR {b : UInt8} {s : Str} (hb : tokenAfterCR.has b.toNat = true)
      (hs : Bytes token s) : FieldName (13 :: b :: s)

/-- The value of a field: it does not begin with a blank. -/
inductive FieldValue : Str → Prop
  | nil : FieldValue []
  | cons {b : UInt8} {s : Str} (hb : valueStart.has b.toNat = true)
      (hs : Bytes valueChar s) : FieldValue (b :: s)

/-- The blanks before a value. -/
def blank : ByteClass := [⟨9, 9⟩, ⟨32, 32⟩]

/-- A header field as it stands in the head. -/
structure HeadField where
  name : Str
  blanks : Str
  value : Str
  lineEnd : LineEnd
  name_ok : FieldName name
  blanks_ok : Bytes blank blanks
  value_ok : FieldValue value

namespace HeadField

variable (f : HeadField)

def bytes : Str :=
  f.name ++ [58] ++ f.blanks ++ f.value ++ f.lineEnd.bytes

def callback : Callback :=
  .httpField f.name (some f.value)

end HeadField

/-- The bytes of an optional part with the byte that begins it. -/
def optional (b : UInt8) (part : Option Str) : Str :=
  part.elim [] fun s => b :: s

/-- The method, and the scheme of the target. -/
structure RequestStart where
  method : Str
  scheme : Option Str
  method_ok : MethodText method
  scheme_ok : ∀ s ∈ scheme, SchemeText s

namespace RequestStart

variable (t : RequestStart)

def bytes : Str :=
  t.method ++ [32] ++ t.scheme.elim [] fun s => s ++ [58]

/-- The callback is given the space after the method too. -/
def callbacks : List Callback :=
  [.requestMethod (t.method ++ [32])]

end RequestStart

/-- The path and the query. -/
structure RequestUri extends RequestStart where
  path : Str
  query : Option Str
  path_ok : Escaped targetChar path
  query_ok : ∀ q ∈ query, Escaped relaxedQueryChar q

namespace RequestUri

variable (u : RequestUri)

def bytes : Str :=
  u.toRequestStart.bytes ++ u.path ++ optional 63 u.query

def callbacks : List Callback :=
  u.toRequestStart.callbacks ++ [.requestPath (some u.path)] ++
    (u.query.map fun q => .queryString (some q)).toList ++ [.requestUri]

end RequestUri

/-- The fragment. -/
structure RequestTarget extends RequestUri where
  fragment : Option Str
  fragment_ok : ∀ f ∈ fragment, Escaped relaxedQueryChar f

namespace RequestTarget

variable (t : RequestTarget)

def bytes : Str :=
  t.toRequestUri.bytes ++ optional 35 t.fragment

def callbacks : List Callback :=
  t.toRequestUri.callbacks ++ (t.fragment.map fun f => .fragment (some f)).toList

end RequestTarget

/-- `HTTP/1.` -/
def versionBytes : Str :=
  versionPrefix.map UInt8.ofNat

/-- The minor version. -/
structure RequestLine extends RequestTarget where
  minor : UInt8
  lineEnd : LineEnd
  minor_ok : minor = 48 ∨ minor = 49

namespace RequestLine

variable (l : RequestLine)

def bytes : Str :=
  l.toRequestTarget.bytes ++ [32] ++ versionBytes ++ [l.minor] ++ l.lineEnd.bytes

def callbacks : List Callback :=
  l.toRequestTarget.callbacks ++ [.httpVersion (some (versionBytes ++ [l.minor]))]

end RequestLine

/-- Header fields. -/
structure RequestLines extends RequestLine where
  fields : List HeadField

namespace RequestLines

variable (l : RequestLines)

def bytes : Str :=
  l.toRequestLine.bytes ++ l.fields.flatMap HeadField.bytes

def callbacks : List Callback :=
  l.toRequestLine.callbacks ++ l.fields.map HeadField.callback

/-- The lines with one field more. -/
def snoc (f : HeadField) : RequestLines :=
  { l with fields := l.fields ++ [f] }

end RequestLines

/-- The end of the head. -/
structure RequestHead extends RequestLines where
  lastEnd : LineEnd

namespace RequestHead

variable (h : RequestHead)

def bytes : Str :=
  h.toRequestLines.bytes ++ h.lastEnd.bytes

def callbacks : List Callback :=
  h.toRequestLines.callbacks

end RequestHead

/-- A message that begins with `<`: the name of its first element, what stands up to the
last `>`, and the zero. -/
structure XmlMessage where
  name : Str
  data : Str
  name_ok : Bytes xmlName name
  name_pos : 1 ≤ name.length

namespace XmlMessage

variable (m : XmlMessage)

def bytes : Str :=
  60 :: m.name ++ m.data ++ [62, 0]

def callbacks : List Callback :=
  [.requestPath (some (60 :: m.name))]

end XmlMessage

/-- A message that begins with `@`: a path, a space, what stands between braces, and the
zero. -/
structure JsonMessage where
  path : Str
  data : Str
  path_ok : Bytes jsonPathChar path

namespace JsonMessage

variable (m : JsonMessage)

def bytes : Str :=
  64 :: m.path ++ [32, 123] ++ m.data ++ [125, 0]

def callbacks : List Callback :=
  [.requestPath (some (64 :: m.path))]

end JsonMessage

/-- What the machine takes, and the callbacks it makes of it. -/
inductive Taken : Str → List Callback → Prop
  | head (h : RequestHead) : Taken h.bytes h.callbacks
  | xml (m : XmlMessage) : Taken m.bytes m.callbacks
  | json (m : JsonMessage) : Taken m.bytes m.callbacks

/-! ## Lemmas -/

namespace Bytes

variable {c d : ByteClass} {s t : Str} {b : UInt8}

theorem nil : Bytes c [] := by
  simp [Bytes]

theorem single (h : c.has b.toNat = true) : Bytes c [b] := by
  simpa [Bytes] using h

/-- Two texts of a class make one. -/
theorem append (hs : Bytes c s) (ht : Bytes c t) : Bytes c (s ++ t) := by
  intro b hb
  cases List.mem_append.mp hb with
  | inl h => exact hs b h
  | inr h => exact ht b h

/-- A byte of the class may follow. -/
theorem snoc (hs : Bytes c s) (hb : c.has b.toNat = true) : Bytes c (s ++ [b]) :=
  hs.append (single hb)

/-- A smaller class is enough. -/
theorem mono (hcd : c.within d = true) (hs : Bytes c s) : Bytes d s :=
  fun b hb => ByteClass.has_of_within hcd (hs b hb)

end Bytes

namespace Escaped

variable {c : ByteClass} {s t : Str} {b h l : UInt8}

/-- Two texts with whole escapes make one. -/
theorem append (hs : Escaped c s) (ht : Escaped c t) : Escaped c (s ++ t) := by
  induction hs with
  | nil => exact ht
  | plain hb _ ih => exact .plain hb ih
  | escape hh hl _ ih => exact .escape hh hl ih

/-- A byte that stands for itself may follow. -/
theorem snoc (hs : Escaped c s) (hb : c.has b.toNat = true) : Escaped c (s ++ [b]) :=
  hs.append (.plain hb .nil)

/-- An escape may follow. -/
theorem snoc_escape (hs : Escaped c s) (hh : xdigit.has h.toNat = true)
    (hl : xdigit.has l.toNat = true) : Escaped c (s ++ [37, h, l]) :=
  hs.append (.escape hh hl .nil)

/-- A smaller class of bytes is enough. -/
theorem mono {d : ByteClass} (hcd : c.within d = true) (hs : Escaped c s) : Escaped d s := by
  induction hs with
  | nil => exact .nil
  | plain hb _ ih => exact .plain (ByteClass.has_of_within hcd hb) ih
  | escape hh hl _ ih => exact .escape hh hl ih

/-- A text without escapes is one. -/
theorem of_bytes (hs : Bytes c s) : Escaped c s := by
  induction s with
  | nil => exact .nil
  | cons b s ih =>
      exact .plain (hs b List.mem_cons_self) (ih fun x hx => hs x (List.mem_cons_of_mem b hx))

end Escaped

/-- A method that is not of full length takes another letter or digit. -/
theorem MethodText.snoc {m : Str} {b : UInt8} (hm : MethodText m) (hlt : m.length < 20)
    (hb : upperDigit.has b.toNat = true) : MethodText (m ++ [b]) where
  bytes := hm.bytes.snoc hb
  pos := by simp
  le := by simpa using Nat.succ_le_of_lt hlt

/-- A scheme takes another of its characters. -/
theorem SchemeText.snoc {s : Str} {b : UInt8} (hs : SchemeText s)
    (hb : schemeChar.has b.toNat = true) : SchemeText (s ++ [b]) := by
  cases hs with
  | cons hc hs => exact .cons hc (hs.snoc hb)

/-- A scheme without its colon may be a path. -/
theorem SchemeText.escaped {s : Str} (hs : SchemeText s) : Escaped targetChar s := by
  cases hs with
  | cons hc hs =>
      exact .plain (ByteClass.has_of_within (by decide) hc)
        (Escaped.of_bytes (hs.mono (by decide)))

/-- A name goes on after its first byte, unless that is a carriage return. -/
theorem FieldName.snoc {s : Str} {b : UInt8} (hs : FieldName s) (hne : s ≠ [13])
    (hb : token.has b.toNat = true) : FieldName (s ++ [b]) := by
  cases hs with
  | plain hc hs => exact .plain hc (hs.snoc hb)
  | bare => exact absurd rfl hne
  | afterCR hc hs => exact .afterCR hc (hs.snoc hb)

/-- A value that has begun goes on. -/
theorem FieldValue.snoc {s : Str} {b : UInt8} (hs : FieldValue s) (hne : s ≠ [])
    (hb : valueChar.has b.toNat = true) : FieldValue (s ++ [b]) := by
  cases hs with
  | nil => exact absurd rfl hne
  | cons hc hs => exact .cons hc (hs.snoc hb)

/-- One more field is written after the others. -/
theorem RequestLines.snoc_bytes (l : RequestLines) (f : HeadField) :
    (l.snoc f).bytes = l.bytes ++ f.bytes := by
  simp [RequestLines.bytes, RequestLines.snoc]

/-- The callback of one more field comes after the others. -/
theorem RequestLines.snoc_callbacks (l : RequestLines) (f : HeadField) :
    (l.snoc f).callbacks = l.callbacks ++ [f.callback] := by
  simp [RequestLines.callbacks, RequestLines.snoc]

end Http

end Agent
