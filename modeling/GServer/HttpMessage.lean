import GServer.HttpParser
import GServer.Library.TextLines

/-!
# Messages as text

`dump` writes a start line, a line for every header except those named `connection`,
a `connection` line of its own and the body after a `content-length` line.  A reader of
the protocol takes the text apart again: the start line, header lines up to the first
empty line, then as many bytes of body as `content-length` says.

The functions of requests and responses differ in the blank after the colon and in what
stands after the headers when there is no body: a request writes one line end more.
`m_status` is kept as the number that the cast to `uint32_t` prints.
-/

namespace Agent

open OrderedMaps TextLines

namespace Http

/-! ## What is written -/

/-- `HTTP_STATUS_MAP`. -/
def httpStatusMap : List (UInt32 × String) :=
  [(100, "Continue"), (101, "Switching Protocols"), (102, "Processing"),
    (200, "OK"), (201, "Created"), (202, "Accepted"),
    (203, "Non-Authoritative Information"), (204, "No Content"), (205, "Reset Content"),
    (206, "Partial Content"), (207, "Multi-Status"), (208, "Already Reported"),
    (226, "IM Used"),
    (300, "Multiple Choices"), (301, "Moved Permanently"), (302, "Found"),
    (303, "See Other"), (304, "Not Modified"), (305, "Use Proxy"),
    (307, "Temporary Redirect"), (308, "Permanent Redirect"),
    (400, "Bad Request"), (401, "Unauthorized"), (402, "Payment Required"),
    (403, "Forbidden"), (404, "Not Found"), (405, "Method Not Allowed"),
    (406, "Not Acceptable"), (407, "Proxy Authentication Required"),
    (408, "Request Timeout"), (409, "Conflict"), (410, "Gone"), (411, "Length Required"),
    (412, "Precondition Failed"), (413, "Payload Too Large"), (414, "URI Too Long"),
    (415, "Unsupported Media Type"), (416, "Range Not Satisfiable"),
    (417, "Expectation Failed"), (421, "Misdirected Request"),
    (422, "Unprocessable Entity"), (423, "Locked"), (424, "Failed Dependency"),
    (426, "Upgrade Required"), (428, "Precondition Required"), (429, "Too Many Requests"),
    (431, "Request Header Fields Too Large"), (451, "Unavailable For Legal Reasons"),
    (500, "Internal Server Error"), (501, "Not Implemented"), (502, "Bad Gateway"),
    (503, "Service Unavailable"), (504, "Gateway Timeout"),
    (505, "HTTP Version Not Supported"), (506, "Variant Also Negotiates"),
    (507, "Insufficient Storage"), (508, "Loop Detected"), (510, "Not Extended"),
    (511, "Network Authentication Required")]

/-- `HttpMethodToString`: an entry of the table `s_method_string`, or what is read past
its end. -/
def httpMethodToString (m : HttpMethod) : Option Str :=
  (httpMethodMap.find? fun e => e.1 == m).map fun e => ascii e.2

/-- `HttpStatusToString`. -/
def httpStatusToString (s : UInt32) : Str :=
  match httpStatusMap.find? fun e => e.1 == s with
  | some e => ascii e.2
  | none => ascii "<unknown>"

/-- `HttpResponse`, with the members that `dump` prints. -/
structure ResponseMessage extends HttpResponse MapType where
  status : UInt32
  version : UInt8
  close : Bool
  body : Str
  reason : Str

def connection : Str := ascii "connection"

def contentLength : Str := ascii "content-length"

/-- `HTTP/` and the two halves of the version. -/
def versionText (version : UInt8) : Str :=
  ascii "HTTP/" ++ numeral (version >>> 4).toNat ++ [46] ++ numeral (version &&& 15).toNat

/-- A header line without its end. -/
def fieldLine (f : Str × Str) : Str :=
  f.1 ++ [58] ++ f.2

/-- What the `connection` line says. -/
def connectionValue (close : Bool) : Str :=
  if close then ascii "close" else ascii "keep-alive"

/-- The headers that the loop of `dump` does not skip. -/
def written (headers : MapType) : List (Str × Str) :=
  headers.entries.filter fun e => strcasecmp (cStr e.1) connection ≠ 0

/-- The header lines and the `connection` line, `blank` standing after each colon. -/
def headerFields (blank : Str) (headers : MapType) (close : Bool) : List (Str × Str) :=
  (written headers).map (fun e => (e.1, blank ++ e.2)) ++
    [(connection, blank ++ connectionValue close)]

/-- What stands after the `connection` line, `bare` being what is written without a
body. -/
def dumpBody (bare body : Str) : Str :=
  if body = [] then bare
  else ascii "content-length: " ++ numeral body.length ++ crlf ++ crlf ++ body

namespace HttpRequest

variable (r : HttpRequest MapType)

/-- The path with the query and the fragment. -/
def target : Str :=
  r.path ++ (if r.query = [] then [] else [63]) ++ r.query ++
    (if r.fragment = [] then [] else [35]) ++ r.fragment

/-- `HttpRequest::dump`. -/
def dump : Option Str :=
  (httpMethodToString r.method).map fun name =>
    name ++ [32] ++ r.target ++ [32] ++ versionText r.version ++ crlf ++
      writeLines ((headerFields [] r.headers r.close).map fieldLine) ++
      dumpBody (crlf ++ crlf) r.body

end HttpRequest

namespace ResponseMessage

/-- `HttpResponse::HttpResponse`. -/
def new (version : UInt8) (close : Bool) : ResponseMessage where
  headers := OrderedMap.empty
  status := 200
  version := version
  close := close
  body := []
  reason := []

variable (r : ResponseMessage)

/-- The reason that is printed. -/
def reasonText : Str :=
  if r.reason = [] then httpStatusToString r.status else r.reason

/-- `HttpResponse::dump`. -/
def dump : Str :=
  versionText r.version ++ [32] ++ numeral r.status.toNat ++ [32] ++ r.reasonText ++ crlf ++
    writeLines ((headerFields [32] r.headers r.close).map fieldLine) ++
    dumpBody crlf r.body

end ResponseMessage

/-! ## What a reader takes -/

/-- A message as it was read, and the bytes after it. -/
structure Message where
  startLine : Str
  fields : List (Str × Str)
  body : Str
  rest : Str
deriving DecidableEq

/-- A header line: the name, and the value without the blanks around it. -/
def readField (line : Str) : Option (Str × Str) :=
  (cutAt 58 line).map fun r => (r.1, trim r.2)

/-- The field has this name. -/
def isNamed (name : Str) (f : Str × Str) : Bool :=
  decide (EqualIgnoringCase f.1 name)

/-- The body: as many bytes as `content-length` says, none without it. -/
def readBody (fields : List (Str × Str)) (text : Str) : Option (Str × Str) :=
  match fields.find? (isNamed contentLength) with
  | none => some ([], text)
  | some f =>
      match readNumeral f.2 with
      | none => none
      | some n => if n ≤ text.length then some (text.take n, text.drop n) else none

/-- A message from the front of a text. -/
def readMessage (text : Str) : Option Message := do
  let (startLine, text) ← cutLine text
  let (lines, text) ← readLines (text.length + 1) text
  let fields ← lines.mapM readField
  let (body, rest) ← readBody fields text
  return ⟨startLine, fields, body, rest⟩

/-- The two numbers of a version. -/
def readVersion (text : Str) : Option (Nat × Nat) := do
  let (name, numbers) ← cutAt 47 text
  let (major, minor) ← cutAt 46 numbers
  let major ← readNumeral major
  let minor ← readNumeral minor
  if name = ascii "HTTP" then return (major, minor) else none

/-- `StringToHttpMethod`. -/
def stringToHttpMethod (m : Str) : HttpMethod :=
  match httpMethodMap.find? fun e => ascii e.2 == cStr m with
  | some e => e.1
  | none => .INVALID_METHOD

/-- Method, target and version: the target is between the first space and the last. -/
def readRequestLine (line : Str) : Option (HttpMethod × Str × Nat × Nat) := do
  let (name, line) ← cutAt 32 line
  let (target, version) ← cutAtLast 32 line
  let version ← readVersion version
  return (stringToHttpMethod name, target, version)

/-- Version and status. -/
def readStatusLine (line : Str) : Option ((Nat × Nat) × Nat) := do
  let (version, line) ← cutAt 32 line
  let (status, _) ← cutAt 32 line
  let version ← readVersion version
  let status ← readNumeral status
  return (version, status)

/-! ## What a message carries -/

/-- The field says nothing about the connection or the length of the body. -/
def isOther (f : Str × Str) : Bool :=
  !isNamed connection f && !isNamed contentLength f

/-- The message that was read: nothing is left over, one `connection` field, at most one
`content-length` field, the other headers and the body. -/
structure Carries (headers : MapType) (body : Str) (m : Message) : Prop where
  consumed : m.rest = []
  oneConnection : (m.fields.filter (isNamed connection)).length = 1
  oneLength : (m.fields.filter (isNamed contentLength)).length ≤ 1
  others : m.fields.filter isOther = headers.entries.filter isOther
  body_eq : m.body = body

/-- The two halves of a version as numbers. -/
def versionPair (version : UInt8) : Nat × Nat :=
  ((version >>> 4).toNat, (version &&& 15).toNat)

/-- What `dump` writes is read as the request it was written from. -/
def HttpRequest.RoundTrips (r : HttpRequest MapType) : Prop :=
  ∃ text m, r.dump = some text ∧ readMessage text = some m ∧
    readRequestLine m.startLine = some (r.method, r.target, versionPair r.version) ∧
    Carries r.headers r.body m

/-- What `dump` writes is read as the response it was written from. -/
def ResponseMessage.RoundTrips (r : ResponseMessage) : Prop :=
  ∃ m, readMessage r.dump = some m ∧
    readStatusLine m.startLine = some (versionPair r.version, r.status.toNat) ∧
    Carries r.headers r.body m

/-- The field fits in one line and its name ends at the colon. -/
def CleanField (f : Str × Str) : Prop :=
  OneLine f.1 ∧ OneLine f.2 ∧ 58 ∉ f.1

/-- The request has a method and no part of it breaks its line. -/
structure HttpRequest.Clean (r : HttpRequest MapType) : Prop where
  method : r.method ≠ .INVALID_METHOD
  path : OneLine r.path
  query : OneLine r.query
  fragment : OneLine r.fragment
  headers : ∀ e ∈ r.headers.entries, CleanField e

/-- No part of the response breaks its line. -/
structure ResponseMessage.Clean (r : ResponseMessage) : Prop where
  reason : OneLine r.reason
  headers : ∀ e ∈ r.headers.entries, CleanField e

/-- The `content-length` headers that the program has set itself. -/
def ownLengths (headers : MapType) : List (Str × Str) :=
  headers.entries.filter (isNamed contentLength)

/-- The loop skips none of the other headers, and none has blanks around its value. -/
def HeadersKept (headers : MapType) : Prop :=
  ∀ e ∈ headers.entries, isOther e = true →
    strcasecmp (cStr e.1) connection ≠ 0 ∧ trim e.2 = e.2

/-! ## The fields -/

/-- A field as the reader sees it. -/
def asRead (f : Str × Str) : Str × Str :=
  (f.1, trim f.2)

@[simp] theorem isNamed_asRead (name : Str) (f : Str × Str) :
    isNamed name (asRead f) = isNamed name f :=
  rfl

@[simp] theorem isOther_asRead (f : Str × Str) : isOther (asRead f) = isOther f :=
  rfl

/-- The fields of a message with this body. -/
def allFields (blank : Str) (headers : MapType) (close : Bool) (body : Str) : List (Str × Str) :=
  headerFields blank headers close ++
    if body = [] then [] else [(contentLength, 32 :: numeral body.length)]

/-- A header line is read as its name and its trimmed value. -/
theorem readField_fieldLine {f : Str × Str} (h : CleanField f) :
    readField (fieldLine f) = some (asRead f) := by
  rw [readField, fieldLine, List.append_assoc, List.singleton_append, cutAt_append h.2.2]
  rfl

/-- All header lines are read as their names and trimmed values. -/
theorem mapM_readField {fs : List (Str × Str)} (h : ∀ f ∈ fs, CleanField f) :
    (fs.map fieldLine).mapM readField = some (fs.map asRead) := by
  induction fs with
  | nil => rfl
  | cons f fs ih =>
      rw [List.map_cons, List.mapM_cons, readField_fieldLine (h f List.mem_cons_self),
        ih fun g hg => h g (List.mem_cons_of_mem f hg)]
      rfl

/-- A header line has its colon. -/
theorem fieldLine_ne_nil (f : Str × Str) : fieldLine f ≠ [] := by
  simp [fieldLine]

/-- A clean field fits in a line. -/
theorem CleanField.oneLine {f : Str × Str} (h : CleanField f) : OneLine (fieldLine f) :=
  h.1.joined (by decide) h.2.1

/-- Each line has at least its end. -/
theorem length_le_writeLines (lines : List Str) : lines.length ≤ (writeLines lines).length := by
  induction lines with
  | nil => exact Nat.zero_le _
  | cons line lines ih =>
      simp only [writeLines, List.flatMap_cons, List.length_append, List.length_cons] at ih ⊢
      have hcrlf : crlf.length = 2 := rfl
      omega

/-- **A message is taken apart where it was put together.** -/
theorem readMessage_written {startLine : Str} (hstart : OneLine startLine)
    {fs : List (Str × Str)} (hfs : ∀ f ∈ fs, CleanField f) (text : Str) :
    readMessage (startLine ++ crlf ++ writeLines (fs.map fieldLine) ++ crlf ++ text) =
      (readBody (fs.map asRead) text).map fun r => ⟨startLine, fs.map asRead, r.1, r.2⟩ := by
  have hlines : ∀ line ∈ fs.map fieldLine, line ≠ [] ∧ OneLine line := by
    intro line hline
    obtain ⟨f, hf, rfl⟩ := List.mem_map.mp hline
    exact ⟨fieldLine_ne_nil f, (hfs f hf).oneLine⟩
  have hfuel : (fs.map fieldLine).length <
      (writeLines (fs.map fieldLine) ++ crlf ++ text).length + 1 := by
    have := length_le_writeLines (fs.map fieldLine)
    simp only [List.length_append]
    omega
  have hcut := cutLine_append hstart (writeLines (fs.map fieldLine) ++ crlf ++ text)
  rw [← List.append_assoc, ← List.append_assoc] at hcut
  rw [readMessage, hcut]
  simp only [Option.bind_eq_bind, Option.bind_some, readLines_writeLines hlines text hfuel,
    mapM_readField hfs]
  cases readBody (fs.map asRead) text <;> rfl

/-! ## Names -/

theorem cStr_connection : cStr connection = connection := by
  decide

/-- The loop skips a header exactly when its name is `connection` as a C string. -/
theorem mem_written {headers : MapType} {e : Str × Str} :
    e ∈ written headers ↔
      e ∈ headers.entries ∧ strcasecmp (cStr e.1) connection ≠ 0 := by
  rw [written, List.mem_filter, decide_eq_true_eq]

/-- A name that is `connection` ignoring case is so as a C string. -/
theorem strcasecmp_of_isNamed {e : Str × Str} (h : isNamed connection e = true) :
    strcasecmp (cStr e.1) connection = 0 := by
  have hequal : EqualIgnoringCase e.1 connection := of_decide_eq_true h
  rw [← cStr_connection]
  exact (strcasecmp_eq_zero_iff _ _ (cStr_ne_zero _) (cStr_ne_zero _)).mpr hequal.cStr

/-- `content-length` is not `connection`, also as a C string. -/
theorem strcasecmp_of_contentLength {e : Str × Str} (h : isNamed contentLength e = true) :
    strcasecmp (cStr e.1) connection ≠ 0 := by
  have hequal : EqualIgnoringCase e.1 contentLength := of_decide_eq_true h
  intro hzero
  rw [← cStr_connection] at hzero
  have hconn := (strcasecmp_eq_zero_iff _ _ (cStr_ne_zero _) (cStr_ne_zero _)).mp hzero
  have habsurd := hequal.cStr.symm.trans hconn
  revert habsurd
  decide

/-- No name is that of both headers. -/
theorem not_connection_of_contentLength {e : Str × Str} (h : isNamed contentLength e = true) :
    isNamed connection e = false := by
  rw [← Bool.not_eq_true]
  exact fun hconn => strcasecmp_of_contentLength h (strcasecmp_of_isNamed hconn)

/-- The loop of `dump` writes no `connection` header. -/
theorem filter_written_connection (headers : MapType) :
    (written headers).filter (isNamed connection) = [] := by
  rw [List.filter_eq_nil_iff]
  intro e he hconn
  exact (mem_written.mp he).2 (strcasecmp_of_isNamed hconn)

/-- The loop of `dump` writes the `content-length` headers that were set. -/
theorem filter_written_contentLength (headers : MapType) :
    (written headers).filter (isNamed contentLength) = ownLengths headers := by
  rw [written, List.filter_filter, ownLengths]
  refine List.filter_congr fun e _ => ?_
  cases h : isNamed contentLength e with
  | false => rfl
  | true => simpa using strcasecmp_of_contentLength h

/-! ## The fields of a dump -/

section Dump

variable {blank : Str} {headers : MapType} {close : Bool} {body : Str}

/-- The reader does not see the blank after a colon. -/
def Unseen (blank : Str) : Prop :=
  OneLine blank ∧ ∀ value, trim (blank ++ value) = trim value

theorem clean_connection : OneLine connection ∧ 58 ∉ connection :=
  ⟨by decide, by decide⟩

theorem clean_contentLength : OneLine contentLength ∧ 58 ∉ contentLength :=
  ⟨by decide, by decide⟩

theorem oneLine_connectionValue (close : Bool) : OneLine (connectionValue close) := by
  cases close with
  | false => decide
  | true => decide

theorem oneLine_numeral (n : Nat) : OneLine (numeral n) :=
  ⟨not_mem_numeral rfl n, not_mem_numeral rfl n⟩

theorem unseen_nil : Unseen [] :=
  ⟨by decide, fun _ => rfl⟩

theorem unseen_space : Unseen [32] :=
  ⟨by decide, trim_cons_blank⟩

/-- All fields of a clean message are clean. -/
theorem clean_allFields (hblank : Unseen blank) (hclean : ∀ e ∈ headers.entries, CleanField e) :
    ∀ f ∈ allFields blank headers close body, CleanField f := by
  intro f hf
  simp only [allFields, headerFields, List.mem_append, List.mem_map, List.mem_singleton] at hf
  rcases hf with (⟨e, he, rfl⟩ | rfl) | hf
  · obtain ⟨hname, hvalue, hcolon⟩ := hclean e (mem_written.mp he).1
    exact ⟨hname, hblank.1.append hvalue, hcolon⟩
  · exact ⟨clean_connection.1, hblank.1.append (oneLine_connectionValue close),
      clean_connection.2⟩
  · split at hf
    · cases hf
    · obtain rfl := List.mem_singleton.mp hf
      exact ⟨clean_contentLength.1, unseen_space.1.append (oneLine_numeral body.length),
        clean_contentLength.2⟩

/-- The length as the reader sees it. -/
theorem asRead_length (n : Nat) :
    asRead (contentLength, 32 :: numeral n) = (contentLength, numeral n) := by
  have htrim : trim (numeral n) = numeral n := by
    refine trim_of_no_blank fun b hb => ?_
    have hdigit := isDigit_numeral n b hb
    rw [← Bool.not_eq_true]
    intro hblank
    simp only [isBlank, Bool.or_eq_true, beq_iff_eq] at hblank
    rcases hblank with rfl | rfl
    · cases hdigit
    · cases hdigit
  rw [asRead, trim_cons_blank, htrim]

/-- The fields of a message as the reader sees them. -/
theorem map_asRead_allFields (hblank : Unseen blank) :
    (allFields blank headers close body).map asRead =
      (written headers).map asRead ++
        [asRead (connection, connectionValue close)] ++
        (if body = [] then [] else [(contentLength, numeral body.length)]) := by
  have hunseen : ∀ name value : Str, asRead (name, blank ++ value) = asRead (name, value) :=
    fun name value => congrArg (Prod.mk name) (hblank.2 value)
  have hwritten : (written headers).map (asRead ∘ fun e => (e.1, blank ++ e.2)) =
      (written headers).map asRead :=
    List.map_congr_left fun e _ => hunseen e.1 e.2
  rw [allFields, headerFields, List.map_append, List.map_append, List.map_map, hwritten,
    List.map_singleton, hunseen]
  by_cases hbody : body = []
  · rw [if_pos hbody, if_pos hbody]
    rfl
  · rw [if_neg hbody, if_neg hbody, List.map_singleton, asRead_length]

/-- Exactly one `connection` field is read. -/
theorem filter_connection (hblank : Unseen blank) :
    (((allFields blank headers close body).map asRead).filter (isNamed connection)).length = 1 := by
  have hother : ∀ n, isNamed connection (contentLength, numeral n) = false :=
    fun n => not_connection_of_contentLength (decide_eq_true (EqualIgnoringCase.refl _))
  have hconn : ∀ v, isNamed connection (connection, v) = true :=
    fun v => decide_eq_true (EqualIgnoringCase.refl _)
  have hnone : ((written headers).map asRead).filter (isNamed connection) = [] := by
    rw [List.filter_map]
    exact congrArg _ (filter_written_connection headers)
  rw [map_asRead_allFields hblank, List.filter_append, List.filter_append, hnone]
  split
  · simp [hconn]
  · simp [hconn, hother]

variable (headers close body)

/-- The `content-length` fields that are read: those of the program and the one that is
written with a body. -/
theorem filter_contentLength (hblank : Unseen blank) :
    ((allFields blank headers close body).map asRead).filter (isNamed contentLength) =
      (ownLengths headers).map asRead ++
        if body = [] then [] else [(contentLength, numeral body.length)] := by
  have hconn : ∀ v, isNamed contentLength (connection, v) = false := by
    intro v
    have hne : ¬ EqualIgnoringCase connection contentLength := by decide
    exact decide_eq_false hne
  have hlength : ∀ v, isNamed contentLength (contentLength, v) = true :=
    fun v => decide_eq_true (EqualIgnoringCase.refl _)
  have hown : ((written headers).map asRead).filter (isNamed contentLength) =
      (ownLengths headers).map asRead := by
    rw [List.filter_map]
    exact congrArg _ (filter_written_contentLength headers)
  rw [map_asRead_allFields hblank, List.filter_append, List.filter_append, hown]
  split
  · simp [hconn]
  · simp [hconn, hlength]

/-- The other headers come back exactly when the loop skips none of them and no value has
blanks around it. -/
theorem filter_other_iff (hblank : Unseen blank) :
    ((allFields blank headers close body).map asRead).filter isOther =
      headers.entries.filter isOther ↔ HeadersKept headers := by
  have hconn : ∀ v, isOther (connection, v) = false := by
    intro v
    have : isNamed connection (connection, v) = true := decide_eq_true (EqualIgnoringCase.refl _)
    simp [isOther, this]
  have hlength : ∀ v, isOther (contentLength, v) = false := by
    intro v
    have : isNamed contentLength (contentLength, v) = true :=
      decide_eq_true (EqualIgnoringCase.refl _)
    simp [isOther, this]
  have hread : ((allFields blank headers close body).map asRead).filter isOther =
      ((headers.entries.filter isOther).filter fun e =>
        decide (strcasecmp (cStr e.1) connection ≠ 0)).map asRead := by
    have hmap : ((written headers).map asRead).filter isOther =
        ((written headers).filter isOther).map asRead := List.filter_map
    rw [map_asRead_allFields hblank, List.filter_append, List.filter_append, hmap, written,
      List.filter_filter, List.filter_filter]
    simp only [Bool.and_comm]
    split
    · simp [asRead, hconn]
    · simp [asRead, hconn, hlength]
  rw [hread]
  constructor
  · intro heq e he hother
    have hlen := congrArg List.length heq
    rw [List.length_map, List.length_filter_eq_length_iff] at hlen
    have hmem : e ∈ headers.entries.filter isOther := List.mem_filter.mpr ⟨he, hother⟩
    refine ⟨of_decide_eq_true (hlen e hmem), ?_⟩
    rw [List.filter_eq_self.mpr hlen] at heq
    have hself := List.map_inj_left.mp (heq.trans (List.map_id _).symm) e hmem
    exact congrArg Prod.snd hself
  · intro hkept
    have hall : ∀ e ∈ headers.entries.filter isOther,
        decide (strcasecmp (cStr e.1) connection ≠ 0) = true := by
      intro e he
      obtain ⟨he, hother⟩ := List.mem_filter.mp he
      exact decide_eq_true (hkept e he hother).1
    rw [List.filter_eq_self.mpr hall]
    have hid : ∀ e ∈ headers.entries.filter isOther, asRead e = e := by
      intro e he
      obtain ⟨he, hother⟩ := List.mem_filter.mp he
      exact Prod.ext rfl (hkept e he hother).2
    exact (List.map_congr_left hid).trans (List.map_id _)

/-! ## The body -/

/-- A body is read to the end of the text exactly when the one `content-length` field
says how long it is, or there is none and nothing is there to read. -/
theorem readBody_iff {fields : List (Str × Str)} {text : Str}
    (hone : (fields.filter (isNamed contentLength)).length ≤ 1) :
    readBody fields text = some (body, []) ↔ text = body ∧
      ((fields.filter (isNamed contentLength) = [] ∧ body = []) ∨
        ∃ f, fields.filter (isNamed contentLength) = [f] ∧
          readNumeral f.2 = some body.length) := by
  rw [readBody, ← List.head?_filter]
  rcases hfields : fields.filter (isNamed contentLength) with _ | ⟨f, _ | ⟨g, more⟩⟩
  · simp only [List.head?_nil, Option.some.injEq, Prod.mk.injEq]
    constructor
    · rintro ⟨rfl, rfl⟩
      exact ⟨rfl, Or.inl ⟨trivial, rfl⟩⟩
    · rintro ⟨rfl, ⟨-, rfl⟩ | ⟨f, hf, -⟩⟩
      · exact ⟨rfl, rfl⟩
      · cases hf
  · simp only [List.head?_cons]
    cases hnumber : readNumeral f.2 with
    | none =>
        refine iff_of_false nofun ?_
        rintro ⟨-, ⟨hf, -⟩ | ⟨g, hg, hread⟩⟩
        · cases hf
        · cases hg
          rw [hnumber] at hread
          cases hread
    | some n =>
        constructor
        · intro h
          simp only [Option.ite_none_right_eq_some, Option.some.injEq, Prod.mk.injEq] at h
          obtain ⟨hle, htake, hdrop⟩ := h
          have hlength : text.length = n := Nat.le_antisymm (List.drop_eq_nil_iff.mp hdrop) hle
          rw [List.take_of_length_le (Nat.le_of_eq hlength)] at htake
          subst htake
          exact ⟨rfl, Or.inr ⟨f, rfl, hnumber.trans (congrArg some hlength.symm)⟩⟩
        · rintro ⟨rfl, ⟨hf, -⟩ | ⟨g, hg, hread⟩⟩
          · cases hf
          · cases hg
            obtain rfl := Option.some.inj (hnumber.symm.trans hread)
            simp
  · rw [hfields] at hone
    exact absurd hone (by simp)

/-- How the body has to be announced, `extra` being what is written after the head of a
message without one. -/
def BodyFramed (extra : Str) (headers : MapType) (body : Str) : Prop :=
  (body ≠ [] ∧ ownLengths headers = []) ∨
    (body = [] ∧ extra = [] ∧ (ownLengths headers).length ≤ 1 ∧
      ∀ f ∈ ownLengths headers, readNumeral (trim f.2) = some 0)

/-- **The framing law.**  The text after the fields is read as the body, with at most one
length, exactly when the body is framed. -/
theorem bodyFramed_iff (hblank : Unseen blank) (extra : Str) :
    ((((allFields blank headers close body).map asRead).filter
        (isNamed contentLength)).length ≤ 1 ∧
      readBody ((allFields blank headers close body).map asRead)
        (if body = [] then extra else body) = some (body, [])) ↔
      BodyFramed extra headers body := by
  have hfields := filter_contentLength headers close body hblank
  by_cases hbody : body = []
  · simp only [if_pos hbody, List.append_nil] at hfields ⊢
    rw [and_congr_right fun hone => readBody_iff _ hone, hfields, List.length_map]
    subst hbody
    constructor
    · rintro ⟨hone, hextra, ⟨hnone, -⟩ | ⟨f, hf, hread⟩⟩
      · rw [List.map_eq_nil_iff] at hnone
        refine Or.inr ⟨rfl, hextra, hone, ?_⟩
        rw [hnone]
        exact nofun
      · refine Or.inr ⟨rfl, hextra, hone, fun g hg => ?_⟩
        have hmem : asRead g ∈ [f] := hf ▸ List.mem_map_of_mem hg
        rw [List.mem_singleton] at hmem
        rw [← hmem] at hread
        exact hread
    · rintro (⟨hne, -⟩ | ⟨-, hextra, hone, hzero⟩)
      · exact absurd rfl hne
      · refine ⟨hone, hextra, ?_⟩
        rcases hown : ownLengths headers with _ | ⟨f, _ | ⟨g, more⟩⟩
        · exact Or.inl ⟨rfl, rfl⟩
        · exact Or.inr ⟨asRead f, rfl, hzero f (hown ▸ List.mem_cons_self)⟩
        · rw [hown] at hone
          exact absurd hone (by simp)
  · simp only [if_neg hbody] at hfields ⊢
    rw [and_congr_right fun hone => readBody_iff _ hone, hfields, List.length_append,
      List.length_map, List.length_singleton]
    constructor
    · rintro ⟨hone, -⟩
      exact Or.inl ⟨hbody, List.length_eq_zero_iff.mp (by omega)⟩
    · rintro (⟨-, hnone⟩ | ⟨hnil, -⟩)
      · rw [hnone]
        exact ⟨Nat.le_refl 1, rfl, Or.inr ⟨_, rfl, readNumeral_numeral _⟩⟩
      · exact absurd hnil hbody

/-- Start line, fields and body of a dump, the length being one of the fields. -/
theorem dump_eq (startLine extra : Str) :
    startLine ++ crlf ++ writeLines ((headerFields blank headers close).map fieldLine) ++
        dumpBody (crlf ++ extra) body =
      startLine ++ crlf ++ writeLines ((allFields blank headers close body).map fieldLine) ++
        crlf ++ if body = [] then extra else body := by
  by_cases hbody : body = []
  · rw [dumpBody, if_pos hbody, allFields, if_pos hbody, if_pos hbody, List.append_nil]
    simp only [List.append_assoc]
  · have hname : ascii "content-length: " = contentLength ++ [58] ++ [32] := by decide
    rw [dumpBody, if_neg hbody, allFields, if_neg hbody, if_neg hbody, hname]
    simp [writeLines, fieldLine]

/-- **What the reader makes of a dump.** -/
theorem carries_iff (extra : Str) (reads : Str → Prop) {startLine : Str}
    (hstart : OneLine startLine) (hreads : reads startLine) (hblank : Unseen blank)
    (hclean : ∀ e ∈ headers.entries, CleanField e) :
    (∃ m, readMessage (startLine ++ crlf ++
        writeLines ((headerFields blank headers close).map fieldLine) ++
        dumpBody (crlf ++ extra) body) = some m ∧ reads m.startLine ∧ Carries headers body m) ↔
      HeadersKept headers ∧ BodyFramed extra headers body := by
  rw [dump_eq, readMessage_written hstart (clean_allFields hblank hclean),
    ← filter_other_iff headers close body hblank, ← bodyFramed_iff headers close body hblank extra]
  constructor
  · rintro ⟨m, hm, -, hcarries⟩
    obtain ⟨⟨b, rest⟩, hbody, rfl⟩ := Option.map_eq_some_iff.mp hm
    obtain rfl : rest = [] := hcarries.consumed
    obtain rfl : b = body := hcarries.body_eq
    exact ⟨hcarries.others, hcarries.oneLength, hbody⟩
  · rintro ⟨hothers, hone, hbody⟩
    rw [hbody]
    exact ⟨_, rfl, hreads, rfl, filter_connection hblank, hone, hothers, rfl⟩

end Dump

/-! ## The start lines -/

/-- A version has no line end in it. -/
theorem oneLine_versionText (version : UInt8) : OneLine (versionText version) := by
  have hname : OneLine (ascii "HTTP/") := by decide
  exact (hname.append (oneLine_numeral _)).joined (by decide) (oneLine_numeral _)

/-- A version has no space in it. -/
theorem space_not_mem_versionText (version : UInt8) : 32 ∉ versionText version := by
  have hname : 32 ∉ ascii "HTTP/" := by decide
  have hdigits : ∀ n, 32 ∉ numeral n := fun n => not_mem_numeral rfl n
  simp [versionText, hname, hdigits]

/-- Versions are read back. -/
theorem readVersion_versionText (version : UInt8) :
    readVersion (versionText version) = some (versionPair version) := by
  have hname : ascii "HTTP/" = ascii "HTTP" ++ [47] := by decide
  have hslash : 47 ∉ ascii "HTTP" := by decide
  have hdot : 46 ∉ numeral (version >>> 4).toNat := not_mem_numeral rfl _
  have htext : versionText version = ascii "HTTP" ++ (47 : UInt8) ::
      (numeral (version >>> 4).toNat ++ 46 :: numeral (version &&& 15).toNat) := by
    rw [versionText, hname]
    simp
  rw [readVersion, htext, cutAt_append hslash]
  simp only [Option.bind_eq_bind, Option.bind_some, cutAt_append hdot, readNumeral_numeral,
    if_true]
  rfl

/-- Every method but the last has a name, which stands for it and is one word. -/
theorem httpMethodToString_spec {m : HttpMethod} (h : m ≠ .INVALID_METHOD) :
    ∃ name, httpMethodToString m = some name ∧ stringToHttpMethod name = m ∧
      OneLine name ∧ 32 ∉ name := by
  have hall : ∀ e ∈ httpMethodMap, stringToHttpMethod (ascii e.2) = e.1 ∧
      (13 ∉ ascii e.2 ∧ 10 ∉ ascii e.2) ∧ 32 ∉ ascii e.2 := by decide
  have hfound : ∃ e ∈ httpMethodMap, httpMethodToString m = some (ascii e.2) ∧ e.1 = m := by
    rw [httpMethodToString]
    cases hfind : httpMethodMap.find? fun e => e.1 == m with
    | none =>
        cases m with
        | INVALID_METHOD => exact absurd rfl h
        | _ => cases hfind
    | some e =>
        exact ⟨e, List.mem_of_find?_eq_some hfind, rfl, by simpa using List.find?_some hfind⟩
  obtain ⟨e, he, hname, rfl⟩ := hfound
  exact ⟨_, hname, hall e he⟩

/-- No text of the table has a control character. -/
theorem httpStatusMap_printed :
    (httpStatusMap.all fun e => (ascii e.2).all (32 ≤ ·)) = true := by
  decide +kernel

/-- No reason of the table has a line end in it. -/
theorem oneLine_httpStatusToString (s : UInt32) : OneLine (httpStatusToString s) := by
  rw [httpStatusToString]
  cases hfind : httpStatusMap.find? fun e => e.1 == s with
  | none =>
      change OneLine (ascii "<unknown>")
      decide
  | some e =>
      have htext := List.all_eq_true.mp httpStatusMap_printed e (List.mem_of_find?_eq_some hfind)
      have hprinted := List.all_eq_true.mp htext
      exact ⟨fun hmem => absurd (hprinted 13 hmem) (by decide),
        fun hmem => absurd (hprinted 10 hmem) (by decide)⟩

/-- The target of a clean request has no line end in it. -/
theorem HttpRequest.Clean.oneLine_target {r : HttpRequest MapType} (h : r.Clean) :
    OneLine r.target := by
  refine OneLine.append (OneLine.append (OneLine.append (OneLine.append h.path ?_) h.query) ?_)
    h.fragment
  · split <;> decide
  · split <;> decide

/-- The request line is read as what it was written from, spaces in the target included. -/
theorem readRequestLine_written {name : Str} (hname : 32 ∉ name) (target : Str)
    (version : UInt8) :
    readRequestLine (name ++ [32] ++ target ++ [32] ++ versionText version) =
      some (stringToHttpMethod name, target, versionPair version) := by
  have htext : name ++ [32] ++ target ++ [32] ++ versionText version =
      name ++ 32 :: (target ++ 32 :: versionText version) := by simp
  rw [readRequestLine, htext, cutAt_append hname]
  simp only [Option.bind_eq_bind, Option.bind_some, readVersion_versionText,
    cutAtLast_append (space_not_mem_versionText version)]
  rfl

/-- The status line is read as what it was written from, whatever the reason. -/
theorem readStatusLine_written (version : UInt8) (status : Nat) (reason : Str) :
    readStatusLine (versionText version ++ [32] ++ numeral status ++ [32] ++ reason) =
      some (versionPair version, status) := by
  have htext : versionText version ++ [32] ++ numeral status ++ [32] ++ reason =
      versionText version ++ 32 :: (numeral status ++ 32 :: reason) := by simp
  have hstatus : 32 ∉ numeral status := not_mem_numeral rfl status
  rw [readStatusLine, htext, cutAt_append (space_not_mem_versionText version)]
  simp only [Option.bind_eq_bind, Option.bind_some, cutAt_append hstatus,
    readVersion_versionText, readNumeral_numeral]
  rfl

/-! ## Round trips -/

/-- A request comes back exactly when it has a body, its headers are kept and none of
them is a length. -/
theorem HttpRequest.roundTrips_iff {r : HttpRequest MapType} (h : r.Clean) :
    r.RoundTrips ↔ HeadersKept r.headers ∧ r.body ≠ [] ∧ ownLengths r.headers = [] := by
  obtain ⟨name, hname, hmethod, hone, hspace⟩ := httpMethodToString_spec h.method
  have hstart : OneLine (name ++ [32] ++ r.target ++ [32] ++ versionText r.version) :=
    (hone.joined (by decide) h.oneLine_target).joined (by decide) (oneLine_versionText r.version)
  have hline := readRequestLine_written hspace r.target r.version
  rw [hmethod] at hline
  have hiff := carries_iff r.headers r.close r.body crlf
    (fun line => readRequestLine line = some (r.method, r.target, versionPair r.version))
    hstart hline unseen_nil h.headers
  have hframed : BodyFramed crlf r.headers r.body ↔ r.body ≠ [] ∧ ownLengths r.headers = [] := by
    constructor
    · rintro (hbody | ⟨-, hextra, -⟩)
      · exact hbody
      · cases hextra
    · exact Or.inl
  rw [← hframed, ← hiff, RoundTrips, dump, hname]
  constructor
  · rintro ⟨text, m, htext, hm⟩
    rw [Option.map_some, Option.some.injEq] at htext
    subst htext
    exact ⟨m, hm⟩
  · rintro ⟨m, hm⟩
    exact ⟨_, m, rfl, hm⟩

/-- A response comes back exactly when its headers are kept and a length among them is
zero where there is no body, and none where there is one. -/
theorem ResponseMessage.roundTrips_iff {r : ResponseMessage} (h : r.Clean) :
    r.RoundTrips ↔ HeadersKept r.headers ∧ BodyFramed [] r.headers r.body := by
  have hreason : OneLine r.reasonText := by
    rw [reasonText]
    split
    · exact oneLine_httpStatusToString r.status
    · exact h.reason
  have hstart : OneLine (versionText r.version ++ [32] ++ numeral r.status.toNat ++ [32] ++
      r.reasonText) :=
    ((oneLine_versionText r.version).joined (by decide) (oneLine_numeral _)).joined (by decide)
      hreason
  exact carries_iff r.headers r.close r.body []
    (fun line => readStatusLine line = some (versionPair r.version, r.status.toNat))
    hstart (readStatusLine_written _ _ _) unseen_space h.headers

/-- What has to hold for the message framing of a request. -/
def HttpRequest.Framed (r : HttpRequest MapType) : Prop :=
  r.body ≠ [] ∧ ownLengths r.headers = [] ∧ HeadersKept r.headers

/-- What has to hold for the message framing of a response. -/
def ResponseMessage.Framed (r : ResponseMessage) : Prop :=
  ((r.body ≠ [] ∧ ownLengths r.headers = []) ∨
    (r.body = [] ∧ (ownLengths r.headers).length ≤ 1 ∧
      ∀ f ∈ ownLengths r.headers, readNumeral (trim f.2) = some 0)) ∧ HeadersKept r.headers

/-- **Framing.**  What the two functions write is read as what it was written from
exactly for the messages that are framed. -/
theorem roundTrips_iff_framed (request : HttpRequest MapType) (response : ResponseMessage) :
    (request.Clean → (request.RoundTrips ↔ request.Framed)) ∧
      (response.Clean → (response.RoundTrips ↔ response.Framed)) := by
  constructor
  · intro hclean
    rw [HttpRequest.roundTrips_iff hclean, and_comm, and_assoc]
    rfl
  · intro hclean
    rw [ResponseMessage.roundTrips_iff hclean, and_comm, BodyFramed]
    simp only [true_and, ResponseMessage.Framed]

/-- A request that was just made: no headers and no body. -/
def plainRequest : HttpRequest MapType :=
  HttpRequest.new 17 true

/-- A response that was just made. -/
def plainResponse : ResponseMessage :=
  ResponseMessage.new 17 true

/-- The request that was just made is clean. -/
theorem plainRequest_clean : plainRequest.Clean :=
  ⟨by decide, by decide, by decide, by decide, nofun⟩

/-- A request with a query, a header and a body. -/
def headedRequest : HttpRequest MapType :=
  { HttpRequest.new 17 true with
    method := .POST, path := ascii "/a", query := ascii "q=1", body := ascii "xyz"
    headers := ⟨[(ascii "host", ascii "b")]⟩ }

theorem headedRequest_clean : headedRequest.Clean := by
  refine ⟨by decide, by decide, by decide, by decide, fun e he => ?_⟩
  obtain rfl := List.mem_singleton.mp he
  exact ⟨by decide, by decide, by decide⟩

theorem headedRequest_framed : headedRequest.Framed := by
  refine ⟨by decide, by decide, fun e he _ => ?_⟩
  obtain rfl := List.mem_singleton.mp he
  decide

/-- The request with a body comes back and so does the response; the request without one does
not. -/
theorem roundTrips_iff_framed_plain :
    (headedRequest.Clean ∧ headedRequest.RoundTrips) ∧
      (plainRequest.Clean ∧ ¬ plainRequest.RoundTrips) ∧
      plainResponse.Clean ∧ plainResponse.RoundTrips := by
  have hclean : plainResponse.Clean := ⟨by decide, nofun⟩
  have hkept : HeadersKept plainResponse.headers := nofun
  have hframed := roundTrips_iff_framed plainRequest plainResponse
  refine ⟨⟨headedRequest_clean, ?_⟩, ⟨plainRequest_clean, ?_⟩, hclean, ?_⟩
  · rw [(roundTrips_iff_framed headedRequest plainResponse).1 headedRequest_clean]
    exact headedRequest_framed
  · rw [hframed.1 plainRequest_clean]
    exact fun h => h.1 rfl
  · rw [hframed.2 hclean]
    exact ⟨Or.inr ⟨rfl, Nat.zero_le 1, nofun⟩, hkept⟩

/-- A request without a body leaves a line end in front of the next message. -/
theorem plainRequest_leaves_line_end :
    ¬ ((∀ r : HttpRequest MapType, r.Clean → r.RoundTrips) ∧
      ∀ r : ResponseMessage, r.Clean → r.RoundTrips) := by
  rintro ⟨hrequest, -⟩
  obtain ⟨text, m, htext, hm, -, hcarries⟩ := hrequest plainRequest plainRequest_clean
  have hrest : (plainRequest.dump.bind readMessage).map (·.rest) = some crlf := by
    decide
  rw [htext, Option.bind_some, hm, Option.map_some, hcarries.consumed] at hrest
  cases hrest

end Http

end Agent
