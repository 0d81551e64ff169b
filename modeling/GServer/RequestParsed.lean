import GServer.RequestAccepted
import GServer.HttpMessage
import GServer.HttpReceive

/-!
# Requests written and parsed

`runCallbacks_head` is what the callbacks of `HttpRequestParser` make of a head.  What
`HttpRequest::dump` writes is such a head and a rest: the body, or one line end more
when there is none.  So the parser reads back the request that was written, with the
headers that `dump` adds, and stops in front of the rest.  The one method name with a
hyphen is the exception.
-/

namespace Agent

open RangeTables TextLines OrderedMaps

namespace Http

/-! ## What a head says -/

section Said

variable {M : Type} [KeyedStore M]

/-- The request line, as the callbacks leave it. -/
def RequestHead.firstLine (M : Type) [KeyedStore M] (h : RequestHead) : Target M :=
  let m := charsToHttpMethod (h.method ++ [32])
  { data :=
      { (HttpRequest.new 0x11 true : HttpRequest M) with
        method := if m = .INVALID_METHOD then .GET else m
        path := h.path
        query := h.query.getD []
        fragment := h.fragment.getD []
        version := if h.minor = 49 then 0x11 else 0x10 }
    error := if m = .INVALID_METHOD then 1000 else 0 }

/-- The headers set one after the other. -/
def setHeaders (d : HttpRequest M) (fields : List (Str × Str)) : Option (HttpRequest M) :=
  fields.foldlM (fun d f => d.setHeader f.1 f.2) d

/-- What a field says. -/
def HeadField.pair (f : HeadField) : Str × Str :=
  (f.name, f.value)

/-- The callbacks of fields set headers. -/
theorem runCallbacks_fields (t : Target M) (fs : List HeadField) :
    runCallbacks t (fs.map HeadField.callback) =
      (setHeaders t.data (fs.map HeadField.pair)).map fun data => { t with data := data } := by
  induction fs generalizing t with
  | nil => rfl
  | cons f fs ih =>
      have hname : ¬ f.name.length = 0 := by
        have := f.name_ok
        cases hn : f.name with
        | nil => rw [hn] at this; cases this
        | cons b s => simp
      have hrun : Callback.run t f.callback =
          (t.data.setHeader f.name f.value).map fun data => { t with data := data } := by
        rw [HeadField.callback, Callback.run, onRequestHttpField, if_neg hname]
        rfl
      rw [List.map_cons, runCallbacks, List.foldlM_cons, hrun, List.map_cons, setHeaders,
        List.foldlM_cons]
      change _ = Option.map _ ((t.data.setHeader f.name f.value).bind _)
      cases t.data.setHeader f.name f.value with
      | none => rfl
      | some data => exact ih { t with data := data }

omit [KeyedStore M] in
/-- The version that the callback sets. -/
theorem onRequestVersion_text (t : Target M) {minor : UInt8} (h : minor = 48 ∨ minor = 49) :
    onRequestVersion t (some (versionBytes ++ [minor])) =
      some { t with data :=
        { t.data with version := if minor = 49 then 0x11 else 0x10 } } := by
  rcases h with rfl | rfl <;> rfl

/-- **What the callbacks make of a head.** -/
theorem runCallbacks_head (h : RequestHead) :
    runCallbacks (M := M) ⟨HttpRequest.new 0x11 true, 0⟩ h.callbacks =
      (setHeaders (h.firstLine M).data (h.fields.map HeadField.pair)).map fun data =>
        ⟨data, (h.firstLine M).error⟩ := by
  have hline : runCallbacks (M := M) ⟨HttpRequest.new 0x11 true, 0⟩
      h.toRequestLine.callbacks = some (h.firstLine M) := by
    have hquery : h.toRequestUri.callbacks = [.requestMethod (h.method ++ [32])] ++
        (.requestPath (some h.path) :: (h.query.map fun q => .queryString (some q)).toList ++
          [.requestUri]) := by
      simp [RequestUri.callbacks, RequestStart.callbacks]
    rw [RequestLine.callbacks, RequestTarget.callbacks, hquery]
    unfold RequestHead.firstLine
    have hversion := fun t : Target M => onRequestVersion_text t h.minor_ok
    cases h.query <;> cases h.fragment <;>
      by_cases hm : charsToHttpMethod (h.method ++ [32]) = .INVALID_METHOD <;>
      simp [runCallbacks, Callback.run, onRequestMethod, onRequestPath, onRequestQuery,
        onRequestFragment, hversion, hm, HttpRequest.new]
  rw [RequestHead.callbacks, RequestLines.callbacks, runCallbacks_append, hline,
    Option.bind_some, runCallbacks_fields]

/-- The fields among the callbacks. -/
def fieldsOf (cbs : List Callback) : List (Str × Str) :=
  cbs.filterMap fun
    | .httpField field (some value) => some (field, value)
    | _ => none

/-- The assignments of `setHeader` on a store. -/
def setAll (m : M) (fields : List (Str × Str)) : Option M :=
  fields.foldlM (fun m f => setIn m f.1 f.2) m

/-- Setting headers one by one changes nothing but the store. -/
theorem setHeaders_eq (d : HttpRequest M) (fields : List (Str × Str)) :
    setHeaders d fields = (setAll d.headers fields).map fun m => { d with headers := m } := by
  induction fields generalizing d with
  | nil => rfl
  | cons f fields ih =>
      rw [setHeaders, setAll, List.foldlM_cons, List.foldlM_cons, HttpRequest.setHeader]
      cases setIn d.headers f.1 f.2 with
      | none => rfl
      | some m => exact ih { d with headers := m }

/-- What one callback of a run does: it sets a header or leaves the headers alone, and the
error it may report is that of the method. -/
theorem run_proper (t : Target M) {cb : Callback} (h : cb.Proper) :
    (Callback.run t cb).map (fun t => t.data.headers) = setAll t.data.headers (fieldsOf [cb]) ∧
      ∀ t', Callback.run t cb = some t' → t'.error = t.error ∨ t'.error = 1000 := by
  cases cb with
  | requestMethod text =>
      rw [Callback.run, onRequestMethod]
      dsimp only
      split
      · exact ⟨rfl, fun t' ht => .inr (by rw [← Option.some.inj ht])⟩
      · exact ⟨rfl, fun t' ht => .inl (by rw [← Option.some.inj ht])⟩
  | requestUri => exact ⟨rfl, fun t' ht => .inl (by rw [← Option.some.inj ht])⟩
  | fragment text | queryString text =>
      obtain ⟨v, rfl, -⟩ := h
      exact ⟨rfl, fun t' ht => .inl (by rw [← Option.some.inj ht])⟩
  | requestPath text =>
      obtain ⟨v, rfl⟩ := Option.isSome_iff_exists.mp h
      exact ⟨rfl, fun t' ht => .inl (by rw [← Option.some.inj ht])⟩
  | httpVersion text =>
      obtain ⟨d, rfl, hd⟩ := h
      rw [Callback.run, onRequestVersion_text t hd]
      exact ⟨rfl, fun t' ht => .inl (by rw [← Option.some.inj ht])⟩
  | httpField field value =>
      obtain ⟨hname, v, rfl, -⟩ := h
      have hlen : ¬ field.length = 0 := by
        cases hname <;> simp
      have hfields : fieldsOf [.httpField field (some v)] = [(field, v)] := rfl
      rw [Callback.run, onRequestHttpField, if_neg hlen, hfields, setAll]
      simp only [Option.bind_some, HttpRequest.setHeader, List.foldlM_cons, List.foldlM_nil]
      cases setIn t.data.headers field v with
      | none => exact ⟨rfl, fun t' ht => absurd ht (by simp)⟩
      | some m => exact ⟨rfl, fun t' ht => .inl (by rw [← Option.some.inj ht])⟩

/-- Proper callbacks set the headers of their fields, and no error but that of the method. -/
theorem runCallbacks_proper {cbs : List Callback} (h : AllProper cbs) (t : Target M) :
    (runCallbacks t cbs).map (fun t => t.data.headers) = setAll t.data.headers (fieldsOf cbs) ∧
      ∀ t', runCallbacks t cbs = some t' → t'.error = t.error ∨ t'.error = 1000 := by
  induction cbs generalizing t with
  | nil => exact ⟨rfl, fun t' ht => .inl (by rw [← Option.some.inj ht])⟩
  | cons cb cbs ih =>
      obtain ⟨hheaders, herror⟩ := run_proper t (h cb List.mem_cons_self)
      have hrest := ih fun c hc => h c (List.mem_cons_of_mem cb hc)
      have hfields : fieldsOf ([cb] ++ cbs) = fieldsOf [cb] ++ fieldsOf cbs :=
        List.filterMap_append
      rw [List.singleton_append] at hfields
      rw [runCallbacks, List.foldlM_cons, hfields, setAll, List.foldlM_append]
      change Option.map _ ((Callback.run t cb).bind fun t => runCallbacks t cbs) =
          (setAll t.data.headers (fieldsOf [cb])).bind (fun m => setAll m (fieldsOf cbs)) ∧
        ∀ t', (Callback.run t cb).bind (fun t => runCallbacks t cbs) = some t' → _
      rw [← hheaders]
      cases hrun : Callback.run t cb with
      | none => exact ⟨rfl, fun t' ht => absurd ht (by simp)⟩
      | some t₁ =>
          obtain ⟨hlater, hlast⟩ := hrest t₁
          refine ⟨hlater, fun t' ht => ?_⟩
          rcases hlast t' ht with h' | h'
          · rw [h']
            exact herror t₁ hrun
          · exact .inr h'

/-- **A new parser on any buffer.**  Every callback is given bytes it can take: the headers
are those of the fields in order, and the call has no result only where setting them has
none.  The error is that of an unknown method or none, a version is never at fault. -/
theorem execute_new (uriRelaxed : Bool) (buffer : Str) :
    let e := httpParserExecute (requestTokenizer uriRelaxed)
      (httpParserInit (requestTokenizer uriRelaxed)) buffer
    let result := (HttpRequestParser.new (requestTokenizer uriRelaxed)).execute (M := M)
      (requestTokenizer uriRelaxed) buffer
    AllProper e.callbacks ∧
      result.map (fun p => p.1.target.data.headers) =
        setAll KeyedStore.empty (fieldsOf e.callbacks) ∧
      ∀ p n, result = some (p, n) →
        n = e.nread ∧ (p.target.error = 0 ∨ p.target.error = 1000) := by
  intro e result
  have houtcome : Outcome buffer [] e := execLoop_outcome (a := []) (s := 1) .start
  have hproper : AllProper e.callbacks := houtcome.proper
  obtain ⟨hheaders, herror⟩ :=
    runCallbacks_proper hproper (⟨HttpRequest.new 0x11 true, 0⟩ : Target M)
  have hresult : result =
      (runCallbacks (⟨HttpRequest.new 0x11 true, 0⟩ : Target M) e.callbacks).map fun target =>
        (⟨⟨e.cs, e.registers⟩, target⟩, e.nread) := rfl
  rw [hresult]
  refine ⟨hproper, ?_, fun p n hp => ?_⟩
  · rw [Option.map_map]
    exact hheaders
  · obtain ⟨t, ht, hpair⟩ := Option.map_eq_some_iff.mp hp
    obtain ⟨rfl, rfl⟩ := Prod.mk.inj hpair
    exact ⟨rfl, herror t ht⟩

end Said

/-! ## What is written -/

/-- A header that the machine takes as one line. -/
structure LineField (f : Str × Str) : Prop where
  name : FieldName f.1
  value : Bytes valueChar f.2

/-- A field as the machine reads it: the blanks after the colon are not part of the value. -/
def asParsed (f : Str × Str) : Str × Str :=
  (f.1, f.2.dropWhile isBlank)

/-- What `trim` takes away is what the machine skips. -/
theorem blank_iff (b : UInt8) : isBlank b = true ↔ blank.has b.toNat = true := by
  rw [isBlank, Bool.or_eq_true, beq_iff_eq, beq_iff_eq, ByteClass.has_iff, ← UInt8.toNat_inj,
    ← UInt8.toNat_inj]
  constructor
  · rintro (h | h)
    · exact ⟨⟨32, 32⟩, by decide, by rw [h]; decide⟩
    · exact ⟨⟨9, 9⟩, by decide, by rw [h]; decide⟩
  · rintro ⟨range, hrange, hlo, hhi⟩
    rcases List.mem_cons.mp hrange with rfl | hrange
    · exact .inr (Nat.le_antisymm hhi hlo)
    · obtain rfl := List.mem_singleton.mp hrange
      exact .inl (Nat.le_antisymm hhi hlo)

/-- A byte of a value that is no blank may begin it. -/
theorem valueStart_of_not_blank {b : UInt8} (hb : valueChar.has b.toNat = true)
    (hnot : isBlank b = false) : valueStart.has b.toNat = true := by
  have hall : ∀ n < 256, valueChar.has n = true → blank.has n = false →
      valueStart.has n = true := by decide +kernel
  refine hall b.toNat (UInt8.toNat_lt b) hb ?_
  rw [← Bool.not_eq_true, ← blank_iff, hnot]
  exact Bool.false_ne_true

/-- A value without its leading blanks is a value. -/
theorem FieldValue.of_dropWhile {v : Str} (hv : Bytes valueChar v) :
    FieldValue (v.dropWhile isBlank) := by
  induction v with
  | nil => exact .nil
  | cons b v ih =>
      have htail : Bytes valueChar v := fun x hx => hv x (List.mem_cons_of_mem b hx)
      cases hb : isBlank b with
      | true =>
          rw [List.dropWhile_cons_of_pos hb]
          exact ih htail
      | false =>
          rw [List.dropWhile_cons_of_neg (by rw [hb]; exact Bool.false_ne_true)]
          exact .cons (valueStart_of_not_blank (hv b List.mem_cons_self) hb) htail

/-- The leading blanks are blanks. -/
theorem Bytes.takeWhile_blank (v : Str) : Bytes blank (v.takeWhile isBlank) :=
  fun b hb => (blank_iff b).mp (List.all_eq_true.mp List.all_takeWhile b hb)

/-- Lines that were written are fields of a head. -/
theorem fields_of_lines {fs : List (Str × Str)} (h : ∀ f ∈ fs, LineField f) :
    ∃ hs : List HeadField, hs.flatMap HeadField.bytes = writeLines (fs.map fieldLine) ∧
      hs.map HeadField.pair = fs.map asParsed := by
  induction fs with
  | nil => exact ⟨[], rfl, rfl⟩
  | cons f fs ih =>
      obtain ⟨hs, hbytes, hpairs⟩ := ih fun g hg => h g (List.mem_cons_of_mem f hg)
      obtain ⟨hname, hvalue⟩ := h f List.mem_cons_self
      refine ⟨⟨f.1, f.2.takeWhile isBlank, f.2.dropWhile isBlank, .crlf, hname,
        Bytes.takeWhile_blank f.2, .of_dropWhile hvalue⟩ :: hs, ?_, ?_⟩
      · rw [List.flatMap_cons, hbytes, HeadField.bytes, List.append_assoc _ (f.2.takeWhile _),
          List.takeWhile_append_dropWhile]
        rfl
      · rw [List.map_cons, hpairs]
        rfl

/-- `dump` writes it in a form that the machine takes: no `M-SEARCH`, a version it knows,
a path that is no authority, and every header a line. -/
structure Parsable (uriRelaxed : Bool) (r : HttpRequest MapType) : Prop where
  method : r.method ≠ .INVALID_METHOD ∧ r.method ≠ .MSEARCH
  version : r.version = 0x10 ∨ r.version = 0x11
  path : OriginPath uriRelaxed r.path
  query : Escaped (queryBytes uriRelaxed) r.query
  fragment : Escaped (queryBytes uriRelaxed) r.fragment
  headers : ∀ e ∈ r.headers.entries, LineField e

/-- A method is printed as a name that the machine takes and that is read as the method. -/
theorem methodName_parsed {m : HttpMethod} (h : m ≠ .INVALID_METHOD ∧ m ≠ .MSEARCH) :
    ∃ name, httpMethodToString m = some name ∧ MethodText name ∧
      charsToHttpMethod (name ++ [32]) = m := by
  obtain ⟨hinvalid, hsearch⟩ := h
  have hall : ∀ e ∈ httpMethodMap, e.1 ≠ .MSEARCH →
      ((ascii e.2).all fun b => upperDigit.has b.toNat) = true ∧ 1 ≤ (ascii e.2).length ∧
      (ascii e.2).length ≤ 20 ∧ charsToHttpMethod (ascii e.2 ++ [32]) = e.1 := by
    decide +kernel
  obtain ⟨e, he, hname, rfl⟩ : ∃ e ∈ httpMethodMap,
      httpMethodToString m = some (ascii e.2) ∧ e.1 = m := by
    rw [httpMethodToString]
    cases hfind : httpMethodMap.find? fun e => e.1 == m with
    | none =>
        cases m with
        | INVALID_METHOD => exact absurd rfl hinvalid
        | _ => cases hfind
    | some e =>
        exact ⟨e, List.mem_of_find?_eq_some hfind, rfl, by simpa using List.find?_some hfind⟩
  obtain ⟨hbytes, hpos, hle, hmethod⟩ := hall e he hsearch
  exact ⟨ascii e.2, hname, ⟨List.all_eq_true.mp hbytes, hpos, hle⟩, hmethod⟩

/-- The `connection` line is a field of a head. -/
theorem lineField_connection (close : Bool) : LineField (connection, connectionValue close) := by
  refine ⟨.plain (b := 99) (s := ascii "onnection") (by decide) ?_, ?_⟩
  · exact List.all_eq_true.mp (by decide)
  · cases close <;> exact List.all_eq_true.mp (by decide)

/-- The `content-length` line is a field of a head. -/
theorem lineField_contentLength (n : Nat) : LineField (contentLength, 32 :: numeral n) := by
  refine ⟨.plain (b := 99) (s := ascii "ontent-length") (by decide)
    (List.all_eq_true.mp (by decide)), ?_⟩
  intro b hb
  rcases List.mem_cons.mp hb with rfl | hb
  · decide
  · have hdigit := isDigit_numeral n b hb
    simp only [isDigit, Bool.and_eq_true, decide_eq_true_eq, UInt8.le_iff_toNat_le] at hdigit
    have hhas : digit.has b.toNat = true :=
      ByteClass.has_iff.mpr ⟨⟨48, 57⟩, by decide, hdigit.1, hdigit.2⟩
    exact ByteClass.has_of_within (by decide) hhas

/-- Every header that `dump` writes is a field of a head. -/
theorem Parsable.lineFields {uriRelaxed : Bool} {r : HttpRequest MapType}
    (h : Parsable uriRelaxed r) : ∀ f ∈ allFields [] r.headers r.close r.body, LineField f := by
  intro f hf
  simp only [allFields, headerFields, List.mem_append, List.mem_map, List.mem_singleton] at hf
  rcases hf with (⟨e, he, rfl⟩ | rfl) | hf
  · exact h.headers e (mem_written.mp he).1
  · exact lineField_connection r.close
  · split at hf
    · cases hf
    · obtain rfl := List.mem_singleton.mp hf
      exact lineField_contentLength r.body.length

/-- The part of a dump behind its head. -/
def afterHead (body : Str) : Str :=
  if body = [] then crlf else body

/-- A part that is left out when it is empty. -/
def part (s : Str) : Option Str :=
  if s = [] then none else some s

theorem eq_of_mem_part {s x : Str} (h : x ∈ part s) : x = s := by
  obtain ⟨-, hx⟩ := Option.ite_none_left_eq_some.mp h
  exact (Option.some.inj hx).symm

/-- A part that is not written and an empty one look alike. -/
theorem optional_part (b : UInt8) (s : Str) :
    optional b (part s) = (if s = [] then [] else [b]) ++ s := by
  cases s <;> rfl

theorem getD_part (s : Str) : (part s).getD [] = s := by
  cases s <;> rfl

/-- The last digit of the version. -/
def minorDigit (version : UInt8) : UInt8 :=
  if version = 0x11 then 49 else 48

/-- The version is written with its minor digit and read back from it. -/
theorem versionText_digit {v : UInt8} (h : v = 0x10 ∨ v = 0x11) :
    versionText v = versionBytes ++ [minorDigit v] ∧ (minorDigit v = 48 ∨ minorDigit v = 49) ∧
      (if minorDigit v = 49 then 0x11 else 0x10) = v := by
  rcases h with rfl | rfl
  · exact ⟨by decide, .inl rfl, rfl⟩
  · exact ⟨by decide, .inr rfl, rfl⟩

/-- **A dump is a head and a rest.** -/
theorem dump_head {uriRelaxed : Bool} {r : HttpRequest MapType} (h : Parsable uriRelaxed r) :
    ∃ head : RequestHead, OriginForm uriRelaxed head.toRequestTarget ∧
      r.dump = some (head.bytes ++ afterHead r.body) ∧
      head.fields.map HeadField.pair =
        (allFields [] r.headers r.close r.body).map asParsed ∧
      ∀ (M : Type) [KeyedStore M], head.firstLine M =
        { data :=
            { (HttpRequest.new 0x11 true : HttpRequest M) with
              method := r.method, path := r.path, query := r.query, fragment := r.fragment
              version := r.version }
          error := 0 } := by
  obtain ⟨name, hname, hmethod, hchars⟩ := methodName_parsed h.method
  obtain ⟨fields, hbytes, hpairs⟩ := fields_of_lines h.lineFields
  have hwithin : (queryBytes uriRelaxed).within relaxedQueryChar = true := by
    cases uriRelaxed <;> rfl
  obtain ⟨hversion, hminor, hvalue⟩ := versionText_digit h.version
  let head : RequestHead :=
    { method := name, scheme := none, path := r.path, query := part r.query
      fragment := part r.fragment, minor := minorDigit r.version, lineEnd := .crlf
      fields := fields, lastEnd := .crlf, method_ok := hmethod
      scheme_ok := fun _ hs => by cases hs
      path_ok := h.path.escaped
      query_ok := fun q hq => eq_of_mem_part hq ▸ h.query.mono hwithin
      fragment_ok := fun f hf => eq_of_mem_part hf ▸ h.fragment.mono hwithin
      minor_ok := hminor }
  refine ⟨head, ⟨rfl, h.path, fun q hq => eq_of_mem_part hq ▸ h.query,
    fun f hf => eq_of_mem_part hf ▸ h.fragment⟩, ?_, hpairs, ?_⟩
  · have hline : head.toRequestLine.bytes = name ++ [32] ++ r.target ++ [32] ++
        versionText r.version ++ crlf := by
      simp [head, RequestLine.bytes, RequestTarget.bytes, RequestUri.bytes, RequestStart.bytes,
        optional_part, HttpRequest.target, hversion, LineEnd.bytes, crlf]
    have hhead : head.bytes = name ++ [32] ++ r.target ++ [32] ++ versionText r.version ++ crlf ++
        writeLines ((allFields [] r.headers r.close r.body).map fieldLine) ++ crlf := by
      rw [RequestHead.bytes, RequestLines.bytes, hline, hbytes]
      rfl
    rw [HttpRequest.dump, hname, hhead, afterHead, Option.map_some, dump_eq]
  · intro M _
    simp [head, RequestHead.firstLine, hchars, h.method.1, getD_part, hvalue]

/-- What `dump` writes is read back: a new parser takes the head of the text, finishes and
reports no error, and has set the members that were written and these headers; what is left
is the body, or a line end when there is none. -/
def HttpRequest.ReadBack (uriRelaxed : Bool) {M : Type} [KeyedStore M]
    (r : HttpRequest MapType) (headers : M) : Prop :=
  ∃ text nread registers, r.dump = some text ∧ text.drop nread = afterHead r.body ∧
    (HttpRequestParser.new (requestTokenizer uriRelaxed)).execute (M := M)
        (requestTokenizer uriRelaxed) text =
      some (⟨⟨.finished, registers⟩,
        { data :=
            { (HttpRequest.new 0x11 true : HttpRequest M) with
              method := r.method, path := r.path, query := r.query, fragment := r.fragment
              version := r.version, headers := headers }
          error := 0 }⟩, nread)

/-- **What `dump` writes is parsed**, with the headers that `dump` writes, the blanks after
a colon apart, wherever the store can be given these one after the other. -/
theorem execute_dump {uriRelaxed : Bool} {r : HttpRequest MapType} (h : Parsable uriRelaxed r)
    {M : Type} [KeyedStore M] {headers : M}
    (hset : setAll KeyedStore.empty ((allFields [] r.headers r.close r.body).map asParsed) =
      some headers) : r.ReadBack uriRelaxed headers := by
  obtain ⟨head, horigin, hdump, hpairs, hfirst⟩ := dump_head h
  obtain ⟨registers, hrun⟩ := execLoop_head horigin (afterHead r.body)
  refine ⟨_, head.bytes.length, registers, hdump, List.drop_left, ?_⟩
  have hcalls := runCallbacks_head (M := M) head
  have hempty : (head.firstLine M).data.headers = KeyedStore.empty := by
    rw [hfirst M]
    rfl
  rw [hpairs, setHeaders_eq, hempty, hset, hfirst M] at hcalls
  have hexec : httpParserExecute (requestTokenizer uriRelaxed)
      (httpParserInit (requestTokenizer uriRelaxed)) (head.bytes ++ afterHead r.body) =
      ⟨.finished, registers, head.callbacks, head.bytes.length⟩ := hrun
  rw [HttpRequestParser.execute, HttpRequestParser.new, hexec]
  simp only [hcalls, Option.map_some]

/-- A store whose comparator is an order: `strcasecmp` is asked for its sign. -/
structure SortedStore where
  entries : OrderedMap Str Str
deriving DecidableEq

/-- The order of the keys ignoring case. -/
def caseInsensitiveOrder (lhs rhs : Str) : Bool :=
  strcasecmp (cStr lhs) (cStr rhs) < 0

instance : KeyedStore SortedStore where
  empty := ⟨OrderedMap.empty⟩
  find m := OrderedMap.find caseInsensitiveOrder m.entries
  assign m key val := (OrderedMap.assign caseInsensitiveOrder m.entries key val).map .mk
  erase m key := (OrderedMap.erase caseInsensitiveOrder m.entries key).map .mk

/-- `POST /a?q=%20 HTTP/1.1` with the header `host` and a body of one byte. -/
def queriedRequest : HttpRequest MapType where
  method := .POST
  version := 0x11
  close := true
  path := [47, 97]
  query := [113, 61, 37, 50, 48]
  fragment := [102]
  body := [120]
  headers := ⟨[(ascii "host", ascii "b")]⟩
  params := OrderedMap.empty
  cookies := OrderedMap.empty

/-- The headers that come back, in the order of the store. -/
def queriedHeaders : SortedStore :=
  ⟨⟨[(connection, ascii "close"), (contentLength, ascii "1"), (ascii "host", ascii "b")]⟩⟩

/-- The request comes back with its headers, the connection and the length among them. -/
theorem execute_dump_post : queriedRequest.ReadBack false queriedHeaders := by
  have hparsable : Parsable false queriedRequest := by
    refine ⟨by decide, .inr rfl, originPath_a, escaped_query, escaped_fragment, ?_⟩
    intro e he
    obtain rfl := List.mem_singleton.mp he
    exact ⟨fieldName_host, List.all_eq_true.mp (by decide)⟩
  exact execute_dump hparsable (by decide +kernel)

end Http

end Agent
