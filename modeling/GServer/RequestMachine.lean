import GServer.RequestSyntax

/-!
# What the request machine takes

`Reading` says, phase by phase, what the bytes read so far are, where the offsets of
the parser point and which callbacks have been made.  A row of the table of phases
keeps it (`Reading.step`), and by the refinement so does every byte the machine reads.
At the end of a run over a buffer it says everything about a run that is not finished,
and at a `done` the bytes are those of a whole head.
-/

namespace Agent

open RangeTables

namespace Http

/-- What has been read when the machine is in a phase. -/
inductive Reading : Phase → Str → Registers → List Callback → Prop
  | start {r : Registers} : Reading .start [] r []
  | method {m : Str} {r : Registers} (hm : MethodText m) (hmark : r.mark = 0) :
      Reading (.method m.length) m r []
  | target {m : Str} {r : Registers} (hm : MethodText m) :
      Reading .target (m ++ [32]) r [.requestMethod (m ++ [32])]
  | scheme {m s : Str} {r : Registers} (hm : MethodText m) (hs : SchemeText s)
      (hmark : r.mark = (m ++ [32]).length) :
      Reading .scheme (m ++ [32] ++ s) r [.requestMethod (m ++ [32])]
  | schemeEnd {m s : Str} {r : Registers} (hm : MethodText m) (hs : SchemeText s) :
      Reading .schemeEnd (m ++ [32] ++ (s ++ [58])) r [.requestMethod (m ++ [32])]
  | path {t : RequestStart} {p : Str} {r : Registers} (hp : Escaped targetChar p)
      (hmark : r.mark = t.bytes.length) :
      Reading .path (t.bytes ++ p) r t.callbacks
  | pathEscape {t : RequestStart} {p : Str} {r : Registers} (hp : Escaped targetChar p)
      (hmark : r.mark = t.bytes.length) :
      Reading .pathEscape (t.bytes ++ (p ++ [37])) r t.callbacks
  | pathHex {t : RequestStart} {p : Str} {h : UInt8} {r : Registers}
      (hp : Escaped targetChar p) (hh : xdigit.has h.toNat = true)
      (hmark : r.mark = t.bytes.length) :
      Reading .pathHex (t.bytes ++ (p ++ [37, h])) r t.callbacks
  | queryStart {t : RequestStart} {p : Str} {r : Registers} (hp : Escaped targetChar p) :
      Reading .queryStart (t.bytes ++ p ++ [63]) r (t.callbacks ++ [.requestPath (some p)])
  | query {t : RequestStart} {p q : Str} {r : Registers} (hp : Escaped targetChar p)
      (hq : Escaped relaxedQueryChar q)
      (hstart : r.queryStart = (t.bytes ++ p ++ [63]).length) :
      Reading .query (t.bytes ++ p ++ [63] ++ q) r (t.callbacks ++ [.requestPath (some p)])
  | queryEscape {t : RequestStart} {p q : Str} {r : Registers} (hp : Escaped targetChar p)
      (hq : Escaped relaxedQueryChar q)
      (hstart : r.queryStart = (t.bytes ++ p ++ [63]).length) :
      Reading .queryEscape (t.bytes ++ p ++ [63] ++ (q ++ [37])) r
        (t.callbacks ++ [.requestPath (some p)])
  | queryHex {t : RequestStart} {p q : Str} {h : UInt8} {r : Registers}
      (hp : Escaped targetChar p) (hq : Escaped relaxedQueryChar q)
      (hh : xdigit.has h.toNat = true)
      (hstart : r.queryStart = (t.bytes ++ p ++ [63]).length) :
      Reading .queryHex (t.bytes ++ p ++ [63] ++ (q ++ [37, h])) r
        (t.callbacks ++ [.requestPath (some p)])
  | fragmentStart {u : RequestUri} {r : Registers} :
      Reading .fragmentStart (u.bytes ++ [35]) r u.callbacks
  | fragment {u : RequestUri} {f : Str} {r : Registers} (hf : Escaped relaxedQueryChar f)
      (hmark : r.mark = (u.bytes ++ [35]).length) :
      Reading .fragment (u.bytes ++ [35] ++ f) r u.callbacks
  | fragmentEscape {u : RequestUri} {f : Str} {r : Registers}
      (hf : Escaped relaxedQueryChar f) (hmark : r.mark = (u.bytes ++ [35]).length) :
      Reading .fragmentEscape (u.bytes ++ [35] ++ (f ++ [37])) r u.callbacks
  | fragmentHex {u : RequestUri} {f : Str} {h : UInt8} {r : Registers}
      (hf : Escaped relaxedQueryChar f) (hh : xdigit.has h.toNat = true)
      (hmark : r.mark = (u.bytes ++ [35]).length) :
      Reading .fragmentHex (u.bytes ++ [35] ++ (f ++ [37, h])) r u.callbacks
  | version {t : RequestTarget} {k : Nat} {r : Registers} (hk : k ≤ 7)
      (hmark : 0 < k → r.mark = (t.bytes ++ [32]).length) :
      Reading (.version k) (t.bytes ++ [32] ++ versionBytes.take k) r t.callbacks
  | minor {t : RequestTarget} {b : UInt8} {r : Registers} (hb : b = 48 ∨ b = 49)
      (hmark : r.mark = (t.bytes ++ [32]).length) :
      Reading (.version 8) (t.bytes ++ [32] ++ (versionBytes ++ [b])) r t.callbacks
  | line {l : RequestLines} {r : Registers} : Reading .line l.bytes r l.callbacks
  | name {l : RequestLines} {n : Str} {r : Registers} (hn : FieldName n) (hne : n ≠ [13])
      (hstart : r.fieldStart = l.bytes.length) :
      Reading .name (l.bytes ++ n) r l.callbacks
  | blanks {l : RequestLines} {n s : Str} {r : Registers} (hn : FieldName n)
      (hs : Bytes blank s) (hstart : r.fieldStart = l.bytes.length)
      (hlen : r.fieldLen = n.length) :
      Reading .blanks (l.bytes ++ n ++ [58] ++ s) r l.callbacks
  | value {l : RequestLines} {n s v : Str} {r : Registers} (hn : FieldName n)
      (hs : Bytes blank s) (hv : FieldValue v) (hne : v ≠ [])
      (hstart : r.fieldStart = l.bytes.length) (hlen : r.fieldLen = n.length)
      (hmark : r.mark = (l.bytes ++ n ++ [58] ++ s).length) :
      Reading .value (l.bytes ++ n ++ [58] ++ s ++ v) r l.callbacks
  | lineEnd {a : Str} {l : RequestLines} {r : Registers} (hl : l.bytes = a ++ [13, 10]) :
      Reading .lineEnd (a ++ [13]) r l.callbacks
  | headEnd {l : RequestLines} {r : Registers} (hstart : r.fieldStart = l.bytes.length) :
      Reading .headEnd (l.bytes ++ [13]) r l.callbacks
  | xmlStart {r : Registers} (hmark : r.mark = 0) : Reading .xmlStart [60] r []
  | xmlName {n : Str} {r : Registers} (hn : Bytes xmlName n) (hpos : 1 ≤ n.length)
      (hmark : r.mark = 0) : Reading .xmlName (60 :: n) r []
  | xmlBody {n d : Str} {r : Registers} (hn : Bytes xmlName n) (hpos : 1 ≤ n.length) :
      Reading .xmlBody (60 :: n ++ d) r [.requestPath (some (60 :: n))]
  | xmlClose {n d : Str} {r : Registers} (hn : Bytes xmlName n) (hpos : 1 ≤ n.length) :
      Reading .xmlClose (60 :: n ++ d ++ [62]) r [.requestPath (some (60 :: n))]
  | jsonPath {p : Str} {r : Registers} (hp : Bytes jsonPathChar p) (hmark : r.mark = 0) :
      Reading .jsonPath (64 :: p) r []
  | jsonBrace {p : Str} {r : Registers} (hp : Bytes jsonPathChar p) :
      Reading .jsonBrace (64 :: p ++ [32]) r [.requestPath (some (64 :: p))]
  | jsonBody {p d : Str} {r : Registers} (hp : Bytes jsonPathChar p) :
      Reading .jsonBody (64 :: p ++ [32, 123] ++ d) r [.requestPath (some (64 :: p))]
  | jsonClose {p d : Str} {r : Registers} (hp : Bytes jsonPathChar p) :
      Reading .jsonClose (64 :: p ++ [32, 123] ++ d ++ [125]) r
        [.requestPath (some (64 :: p))]

/-! ## Where the texts are -/

/-- The bytes read since an offset was set. -/
theorem text_since {a s : Str} (rest : Str) {m : Nat} (hm : m = a.length) :
    text (a ++ s ++ rest) m (a ++ s).length = some s := by
  subst hm
  rw [text, if_pos (by simp), List.take_left, List.drop_left]

/-- An offset that was set here. -/
theorem text_here (buffer : Str) (p : Nat) : text buffer p p = some [] := by
  rw [text, if_pos (Nat.le_refl p), List.drop_take_self]

/-- The bytes of a name. -/
theorem name_since {a n s : Str} (rest : Str) {m k : Nat} (hm : m = a.length)
    (hk : k = n.length) :
    (((a ++ n ++ s ++ rest).take (a ++ n ++ s).length).drop m).take k = n := by
  subst hm hk
  rw [List.take_left, List.append_assoc, List.drop_left, List.take_left]

/-! ## Actions -/

/-- A list of actions is performed in two parts, the second with the registers of the first. -/
theorem perform_append (buffer : Str) (p : Nat) (as bs : List Action) (r : Registers) :
    perform buffer p (as ++ bs) r =
      ((perform buffer p bs (perform buffer p as r).1).1,
        (perform buffer p as r).2 ++ (perform buffer p bs (perform buffer p as r).1).2) := by
  induction as generalizing r with
  | nil => rfl
  | cons a as ih => simp only [List.cons_append, perform, ih, List.append_assoc]

/-- `write_field` notes how long the name is. -/
theorem perform_writeField {buffer : Str} {p k : Nat} {r : Registers}
    (h : p - r.fieldStart = k) :
    perform buffer p [.writeField] r = ({ r with fieldLen := k }, []) := by
  simp only [perform, Action.setRegisters, h]
  rfl

/-- The byte of a row for one byte. -/
theorem eq_of_has {n : Nat} {b : UInt8} (h : ByteClass.has [⟨n, n⟩] b.toNat = true) :
    b = UInt8.ofNat n := by
  have heq : b.toNat = n := by
    obtain ⟨r, hr, hlo, hhi⟩ := ByteClass.has_iff.mp h
    obtain rfl := List.mem_singleton.mp hr
    exact Nat.le_antisymm hhi hlo
  rw [← heq, UInt8.ofNat_toNat]

/-- A request without a scheme. -/
def RequestStart.ofMethod (m : Str) (hm : MethodText m) : RequestStart :=
  { method := m, scheme := none, method_ok := hm, scheme_ok := fun _ h => nomatch h }

def RequestStart.ofScheme (m s : Str) (hm : MethodText m) (hs : SchemeText s) : RequestStart :=
  { method := m, scheme := some s, method_ok := hm
    scheme_ok := fun x h => by obtain rfl := Option.some.inj h; exact hs }

/-- The target up to its path. -/
def RequestStart.withPath (t : RequestStart) (p : Str) (hp : Escaped targetChar p) :
    RequestUri :=
  { t with path := p, query := none, path_ok := hp, query_ok := fun _ h => nomatch h }

/-- The target up to its query. -/
def RequestStart.withQuery (t : RequestStart) (p q : Str) (hp : Escaped targetChar p)
    (hq : Escaped relaxedQueryChar q) : RequestUri :=
  { t with
    path := p, query := some q, path_ok := hp
    query_ok := fun x h => by obtain rfl := Option.some.inj h; exact hq }

/-- The target without a fragment. -/
def RequestUri.withoutFragment (u : RequestUri) : RequestTarget :=
  { u with fragment := none, fragment_ok := fun _ h => nomatch h }

def RequestUri.withFragment (u : RequestUri) (f : Str) (hf : Escaped relaxedQueryChar f) :
    RequestTarget :=
  { u with
    fragment := some f
    fragment_ok := fun x h => by obtain rfl := Option.some.inj h; exact hf }

/-- The request line with nothing after it. -/
def RequestTarget.withVersion (t : RequestTarget) (minor : UInt8) (lineEnd : LineEnd)
    (hminor : minor = 48 ∨ minor = 49) : RequestLines :=
  { t with minor := minor, lineEnd := lineEnd, minor_ok := hminor, fields := [] }

/-- The version and the line end are written after the target. -/
theorem RequestTarget.withVersion_bytes (t : RequestTarget) (minor : UInt8) (lineEnd : LineEnd)
    (hminor : minor = 48 ∨ minor = 49) :
    (t.withVersion minor lineEnd hminor).bytes =
      t.bytes ++ [32] ++ (versionBytes ++ [minor]) ++ lineEnd.bytes := by
  simp [RequestLines.bytes, RequestLine.bytes, RequestTarget.withVersion]

/-- The callback of the version comes after those of the target. -/
theorem RequestTarget.withVersion_callbacks (t : RequestTarget) (minor : UInt8)
    (lineEnd : LineEnd) (hminor : minor = 48 ∨ minor = 49) :
    (t.withVersion minor lineEnd hminor).callbacks =
      t.callbacks ++ [.httpVersion (some (versionBytes ++ [minor]))] := by
  simp [RequestLines.callbacks, RequestLine.callbacks, RequestTarget.withVersion]

/-- The bytes and the callbacks may be written otherwise. -/
theorem Reading.of_eq {ph : Phase} {a a' : Str} {r : Registers} {cbs cbs' : List Callback}
    (h : Reading ph a r cbs) (ha : a = a') (hcbs : cbs = cbs') : Reading ph a' r cbs' := by
  subst ha hcbs
  exact h

/-- The bytes and the callbacks may be written otherwise. -/
theorem Taken.of_eq {a a' : Str} {cbs cbs' : List Callback} (h : Taken a cbs) (ha : a = a')
    (hcbs : cbs = cbs') : Taken a' cbs' := by
  subst ha hcbs
  exact h

/-- The version follows a target without a fragment. -/
theorem Reading.versionStart (u : RequestUri) (r : Registers) :
    Reading (.version 0) (u.bytes ++ [32]) r u.callbacks :=
  (Reading.version (t := u.withoutFragment) (Nat.zero_le 7)
    fun h => absurd h (Nat.lt_irrefl 0)).of_eq
    (by simp [RequestTarget.bytes, RequestUri.withoutFragment, optional])
    (by simp [RequestTarget.callbacks, RequestUri.withoutFragment])

section Step

variable {b : UInt8} {rest : Str} {r : Registers} {actions : List Action} {ph : Phase}

/-- The registers and callbacks after the actions of a byte are those of the phase. -/
def Leads (ph : Phase) (consumed : Str) (cbs : List Callback) (b : UInt8) (rest : Str)
    (actions : List Action) (r : Registers) : Prop :=
  Reading ph (consumed ++ [b]) (perform (consumed ++ b :: rest) consumed.length actions r).1
    (cbs ++ (perform (consumed ++ b :: rest) consumed.length actions r).2)

/-- Actions without a callback. -/
theorem leads_silent {a : Str} {cbs : List Callback} {r₁ : Registers}
    (hperform : perform (a ++ b :: rest) a.length actions r = (r₁, []))
    (h : Reading ph (a ++ [b]) r₁ cbs) : Leads ph a cbs b rest actions r := by
  rw [Leads, hperform, List.append_nil]
  exact h

/-- **A path** after the actions `before`, which make no callback. -/
theorem leads_path {t : RequestStart} {p : Str} (hp : Escaped targetChar p)
    {before : List Action} {r₁ : Registers}
    (hbefore : perform (t.bytes ++ p ++ b :: rest) (t.bytes ++ p).length before r = (r₁, []))
    (hmark : r₁.mark = t.bytes.length)
    (h : Allows (pathRows before) b.toNat (.goto actions ph)) :
    Leads ph (t.bytes ++ p) t.callbacks b rest actions r := by
  have hpath : text (t.bytes ++ p ++ b :: rest) r₁.mark (t.bytes ++ p).length = some p :=
    text_since (b :: rest) hmark
  have huri : (t.withPath p hp).bytes = t.bytes ++ p := by
    simp [RequestUri.bytes, RequestStart.withPath, optional]
  have hcbs : (t.withPath p hp).callbacks =
      t.callbacks ++ ([] ++ [.requestPath (some p), .requestUri]) := by
    simp [RequestUri.callbacks, RequestStart.withPath]
  have hboth : perform (t.bytes ++ p ++ b :: rest) (t.bytes ++ p).length
      [.requestPath, .requestUri] r₁ = (r₁, [.requestPath (some p), .requestUri]) := by
    simp only [perform, Action.setRegisters, Action.callback?, hpath]
    rfl
  simp only [pathRows, allows_cons, allows_nil, or_false, go, Move.goto.injEq] at h
  rcases h with ⟨hb, rfl, rfl⟩ | ⟨hb, rfl, rfl⟩ | ⟨hb, rfl, rfl⟩ | ⟨hb, rfl, rfl⟩ |
    ⟨hb, rfl, rfl⟩
  · rw [Leads, perform_append, hbefore, hboth]
    obtain rfl := eq_of_has hb
    exact (Reading.versionStart (t.withPath p hp) _).of_eq (by rw [huri]; rfl) hcbs
  · rw [Leads, perform_append, hbefore, hboth]
    obtain rfl := eq_of_has hb
    exact Reading.fragmentStart.of_eq (by rw [huri]; rfl) hcbs
  · have hone : perform (t.bytes ++ p ++ b :: rest) (t.bytes ++ p).length [.requestPath] r₁ =
        (r₁, [.requestPath (some p)]) := by
      simp only [perform, Action.setRegisters, Action.callback?, hpath]
      rfl
    rw [Leads, perform_append, hbefore, hone]
    obtain rfl := eq_of_has hb
    exact Reading.queryStart hp
  · obtain rfl := eq_of_has hb
    exact leads_silent hbefore
      ((Reading.pathEscape hp hmark).of_eq (List.append_assoc _ _ _).symm rfl)
  · exact leads_silent hbefore
      ((Reading.path (hp.snoc hb) hmark).of_eq (List.append_assoc _ _ _).symm rfl)

/-- A path begins. -/
theorem leads_pathStart {t : RequestStart}
    (h : Allows (pathRows [.mark]) b.toNat (.goto actions ph)) :
    Leads ph t.bytes t.callbacks b rest actions r := by
  have hpath : Leads ph (t.bytes ++ []) t.callbacks b rest actions r :=
    leads_path .nil rfl (by simp [Action.setRegisters, perform]) h
  rwa [List.append_nil] at hpath

/-! ## The phases -/

/-- Nothing has been read. -/
theorem leads_start (h : Allows (phaseRows .start) b.toNat (.goto actions ph)) :
    Leads ph [] [] b rest actions r := by
  simp only [phaseRows, allows_cons, allows_nil, or_false, go, Move.goto.injEq] at h
  rcases h with ⟨hb, rfl, rfl⟩ | ⟨hb, rfl, rfl⟩ | ⟨hb, rfl, rfl⟩
  · have hm : MethodText [b] := ⟨Bytes.single hb, Nat.le_refl 1, Nat.le_of_ble_eq_true rfl⟩
    exact leads_silent rfl (Reading.method hm rfl)
  · obtain rfl := eq_of_has hb
    exact leads_silent rfl (Reading.xmlStart rfl)
  · obtain rfl := eq_of_has hb
    exact leads_silent rfl (Reading.jsonPath Bytes.nil rfl)

/-- A method has been begun. -/
theorem leads_method {m : Str} (hm : MethodText m) (hmark : r.mark = 0)
    (h : Allows (phaseRows (.method m.length)) b.toNat (.goto actions ph)) :
    Leads ph m [] b rest actions r := by
  rw [phaseRows, allows_cons] at h
  simp only [go, Move.goto.injEq] at h
  rcases h with ⟨hb, rfl, rfl⟩ | h
  · obtain rfl := eq_of_has hb
    have htext : ((m ++ UInt8.ofNat 32 :: rest).take (m.length + 1)).drop r.mark = m ++ [32] := by
      rw [hmark, List.drop_zero, List.take_length_add_append]
      rfl
    rw [Leads]
    simp only [perform, Action.setRegisters, Action.callback?, htext]
    exact Reading.target hm
  · split at h
    · next hlt =>
        simp only [allows_cons, allows_nil, or_false, Move.goto.injEq] at h
        obtain ⟨hb, rfl, rfl⟩ := h
        exact leads_silent rfl
          (by simpa using Reading.method (hm.snoc hlt hb) hmark)
    · exact absurd h (by simp)

/-- The method and its space have been read. -/
theorem leads_target {m : Str} (hm : MethodText m)
    (h : Allows (phaseRows .target) b.toNat (.goto actions ph)) :
    Leads ph (m ++ [32]) [.requestMethod (m ++ [32])] b rest actions r := by
  have hbytes : (RequestStart.ofMethod m hm).bytes = m ++ [32] := by
    simp [RequestStart.ofMethod, RequestStart.bytes]
  rw [phaseRows, allows_cons] at h
  simp only [go, Move.goto.injEq] at h
  rcases h with ⟨hb, rfl, rfl⟩ | h
  · exact leads_silent rfl (Reading.scheme hm (.cons hb Bytes.nil) rfl)
  · have hstart : Leads ph (RequestStart.ofMethod m hm).bytes [.requestMethod (m ++ [32])] b
        rest actions r := leads_pathStart h
    rwa [hbytes] at hstart

/-- A scheme has been begun. -/
theorem leads_scheme {m s : Str} (hm : MethodText m) (hs : SchemeText s)
    (hmark : r.mark = (m ++ [32]).length)
    (h : Allows (phaseRows .scheme) b.toNat (.goto actions ph)) :
    Leads ph (m ++ [32] ++ s) [.requestMethod (m ++ [32])] b rest actions r := by
  have hbytes : (RequestStart.ofMethod m hm).bytes = m ++ [32] := by
    simp [RequestStart.ofMethod, RequestStart.bytes]
  rw [phaseRows, allows_cons, allows_cons] at h
  simp only [go, Move.goto.injEq] at h
  rcases h with ⟨hb, rfl, rfl⟩ | ⟨hb, rfl, rfl⟩ | h
  · exact leads_silent rfl
      ((Reading.scheme hm (hs.snoc hb) hmark).of_eq (List.append_assoc _ _ _).symm rfl)
  · obtain rfl := eq_of_has hb
    exact leads_silent rfl
      ((Reading.schemeEnd hm hs).of_eq (List.append_assoc _ _ _).symm rfl)
  · have hpath : Leads ph ((RequestStart.ofMethod m hm).bytes ++ s)
        [.requestMethod (m ++ [32])] b rest actions r :=
      leads_path hs.escaped rfl (by rw [hbytes]; exact hmark) h
    rwa [hbytes] at hpath

/-- The colon after the scheme has been read. -/
theorem leads_schemeEnd {m s : Str} (hm : MethodText m) (hs : SchemeText s)
    (h : Allows (phaseRows .schemeEnd) b.toNat (.goto actions ph)) :
    Leads ph (m ++ [32] ++ (s ++ [58])) [.requestMethod (m ++ [32])] b rest actions r :=
  leads_pathStart (t := RequestStart.ofScheme m s hm hs) h

/-- An escape has been begun in the path. -/
theorem leads_pathEscape {t : RequestStart} {p : Str} (hp : Escaped targetChar p)
    (hmark : r.mark = t.bytes.length)
    (h : Allows (phaseRows .pathEscape) b.toNat (.goto actions ph)) :
    Leads ph (t.bytes ++ (p ++ [37])) t.callbacks b rest actions r := by
  simp only [phaseRows, allows_cons, allows_nil, or_false, go, Move.goto.injEq] at h
  obtain ⟨hb, rfl, rfl⟩ := h
  exact leads_silent rfl ((Reading.pathHex hp hb hmark).of_eq (by simp) rfl)

/-- An escape in the path has its first digit. -/
theorem leads_pathHex {t : RequestStart} {p : Str} {c : UInt8} (hp : Escaped targetChar p)
    (hc : xdigit.has c.toNat = true) (hmark : r.mark = t.bytes.length)
    (h : Allows (phaseRows .pathHex) b.toNat (.goto actions ph)) :
    Leads ph (t.bytes ++ (p ++ [37, c])) t.callbacks b rest actions r := by
  simp only [phaseRows, allows_cons, allows_nil, or_false, go, Move.goto.injEq] at h
  obtain ⟨hb, rfl, rfl⟩ := h
  exact leads_silent rfl ((Reading.path (hp.snoc_escape hc hb) hmark).of_eq (by simp) rfl)

/-- **A query** after the actions `before`. -/
theorem leads_query {t : RequestStart} {p q : Str} (hp : Escaped targetChar p)
    (hq : Escaped relaxedQueryChar q) {before : List Action} {r₁ : Registers}
    (hbefore : perform (t.bytes ++ p ++ [63] ++ q ++ b :: rest)
      (t.bytes ++ p ++ [63] ++ q).length before r = (r₁, []))
    (hstart : r₁.queryStart = (t.bytes ++ p ++ [63]).length)
    (h : Allows (queryRows before) b.toNat (.goto actions ph)) :
    Leads ph (t.bytes ++ p ++ [63] ++ q) (t.callbacks ++ [.requestPath (some p)]) b rest
      actions r := by
  have hquery : text (t.bytes ++ p ++ [63] ++ q ++ b :: rest) r₁.queryStart
      (t.bytes ++ p ++ [63] ++ q).length = some q := text_since (b :: rest) hstart
  have huri : (t.withQuery p q hp hq).bytes = t.bytes ++ p ++ [63] ++ q := by
    simp [RequestUri.bytes, RequestStart.withQuery, optional]
  have hcbs : (t.withQuery p q hp hq).callbacks =
      t.callbacks ++ [.requestPath (some p)] ++
        ([] ++ [.queryString (some q), .requestUri]) := by
    simp [RequestUri.callbacks, RequestStart.withQuery]
  have hboth : perform (t.bytes ++ p ++ [63] ++ q ++ b :: rest)
      (t.bytes ++ p ++ [63] ++ q).length [.queryString, .requestUri] r₁ =
      (r₁, [.queryString (some q), .requestUri]) := by
    simp only [perform, Action.setRegisters, Action.callback?, hquery]
    rfl
  simp only [queryRows, allows_cons, allows_nil, or_false, go, Move.goto.injEq] at h
  rcases h with ⟨hb, rfl, rfl⟩ | ⟨hb, rfl, rfl⟩ | ⟨hb, rfl, rfl⟩ | ⟨hb, rfl, rfl⟩
  · rw [Leads, perform_append, hbefore, hboth]
    obtain rfl := eq_of_has hb
    exact (Reading.versionStart (t.withQuery p q hp hq) _).of_eq (by rw [huri]; rfl) hcbs
  · rw [Leads, perform_append, hbefore, hboth]
    obtain rfl := eq_of_has hb
    exact Reading.fragmentStart.of_eq (by rw [huri]; rfl) hcbs
  · obtain rfl := eq_of_has hb
    exact leads_silent hbefore
      ((Reading.queryEscape hp hq hstart).of_eq (List.append_assoc _ _ _).symm rfl)
  · exact leads_silent hbefore
      ((Reading.query hp (hq.snoc hb) hstart).of_eq (List.append_assoc _ _ _).symm rfl)

/-- The question mark has been read. -/
theorem leads_queryStart {t : RequestStart} {p : Str} (hp : Escaped targetChar p)
    (h : Allows (phaseRows .queryStart) b.toNat (.goto actions ph)) :
    Leads ph (t.bytes ++ p ++ [63]) (t.callbacks ++ [.requestPath (some p)]) b rest
      actions r := by
  have hquery : Leads ph (t.bytes ++ p ++ [63] ++ []) (t.callbacks ++ [.requestPath (some p)]) b
      rest actions r := leads_query hp .nil rfl (by simp [Action.setRegisters, perform]) h
  rwa [List.append_nil] at hquery

/-- An escape has been begun in the query. -/
theorem leads_queryEscape {t : RequestStart} {p q : Str} (hp : Escaped targetChar p)
    (hq : Escaped relaxedQueryChar q) (hstart : r.queryStart = (t.bytes ++ p ++ [63]).length)
    (h : Allows (phaseRows .queryEscape) b.toNat (.goto actions ph)) :
    Leads ph (t.bytes ++ p ++ [63] ++ (q ++ [37])) (t.callbacks ++ [.requestPath (some p)]) b
      rest actions r := by
  simp only [phaseRows, allows_cons, allows_nil, or_false, go, Move.goto.injEq] at h
  obtain ⟨hb, rfl, rfl⟩ := h
  exact leads_silent rfl ((Reading.queryHex hp hq hb hstart).of_eq (by simp) rfl)

/-- An escape in the query has its first digit. -/
theorem leads_queryHex {t : RequestStart} {p q : Str} {c : UInt8} (hp : Escaped targetChar p)
    (hq : Escaped relaxedQueryChar q) (hc : xdigit.has c.toNat = true)
    (hstart : r.queryStart = (t.bytes ++ p ++ [63]).length)
    (h : Allows (phaseRows .queryHex) b.toNat (.goto actions ph)) :
    Leads ph (t.bytes ++ p ++ [63] ++ (q ++ [37, c])) (t.callbacks ++ [.requestPath (some p)])
      b rest actions r := by
  simp only [phaseRows, allows_cons, allows_nil, or_false, go, Move.goto.injEq] at h
  obtain ⟨hb, rfl, rfl⟩ := h
  exact leads_silent rfl
    ((Reading.query hp (hq.snoc_escape hc hb) hstart).of_eq (by simp) rfl)

/-- **A fragment** after the actions `before`. -/
theorem leads_fragment {u : RequestUri} {f : Str} (hf : Escaped relaxedQueryChar f)
    {before : List Action} {r₁ : Registers}
    (hbefore : perform (u.bytes ++ [35] ++ f ++ b :: rest) (u.bytes ++ [35] ++ f).length
      before r = (r₁, []))
    (hmark : r₁.mark = (u.bytes ++ [35]).length)
    (h : Allows (fragmentRows before) b.toNat (.goto actions ph)) :
    Leads ph (u.bytes ++ [35] ++ f) u.callbacks b rest actions r := by
  have hfragment : text (u.bytes ++ [35] ++ f ++ b :: rest) r₁.mark
      (u.bytes ++ [35] ++ f).length = some f := text_since (b :: rest) hmark
  have hone : perform (u.bytes ++ [35] ++ f ++ b :: rest) (u.bytes ++ [35] ++ f).length
      [.fragment] r₁ = (r₁, [.fragment (some f)]) := by
    simp only [perform, Action.setRegisters, Action.callback?, hfragment]
    rfl
  simp only [fragmentRows, allows_cons, allows_nil, or_false, go, Move.goto.injEq] at h
  rcases h with ⟨hb, rfl, rfl⟩ | ⟨hb, rfl, rfl⟩ | ⟨hb, rfl, rfl⟩
  · rw [Leads, perform_append, hbefore, hone]
    obtain rfl := eq_of_has hb
    exact (Reading.version (t := u.withFragment f hf) (Nat.zero_le 7)
      fun h => absurd h (Nat.lt_irrefl 0)).of_eq
      (by simp [RequestTarget.bytes, RequestUri.withFragment, optional])
      (by simp [RequestTarget.callbacks, RequestUri.withFragment])
  · obtain rfl := eq_of_has hb
    exact leads_silent hbefore
      ((Reading.fragmentEscape hf hmark).of_eq (List.append_assoc _ _ _).symm rfl)
  · exact leads_silent hbefore
      ((Reading.fragment (hf.snoc hb) hmark).of_eq (List.append_assoc _ _ _).symm rfl)

/-- The number sign has been read. -/
theorem leads_fragmentStart {u : RequestUri}
    (h : Allows (phaseRows .fragmentStart) b.toNat (.goto actions ph)) :
    Leads ph (u.bytes ++ [35]) u.callbacks b rest actions r := by
  have hfragment : Leads ph (u.bytes ++ [35] ++ []) u.callbacks b rest actions r :=
    leads_fragment .nil rfl (by simp [Action.setRegisters, perform]) h
  rwa [List.append_nil] at hfragment

/-- An escape has been begun in the fragment. -/
theorem leads_fragmentEscape {u : RequestUri} {f : Str} (hf : Escaped relaxedQueryChar f)
    (hmark : r.mark = (u.bytes ++ [35]).length)
    (h : Allows (phaseRows .fragmentEscape) b.toNat (.goto actions ph)) :
    Leads ph (u.bytes ++ [35] ++ (f ++ [37])) u.callbacks b rest actions r := by
  simp only [phaseRows, allows_cons, allows_nil, or_false, go, Move.goto.injEq] at h
  obtain ⟨hb, rfl, rfl⟩ := h
  exact leads_silent rfl ((Reading.fragmentHex hf hb hmark).of_eq (by simp) rfl)

/-- An escape in the fragment has its first digit. -/
theorem leads_fragmentHex {u : RequestUri} {f : Str} {c : UInt8}
    (hf : Escaped relaxedQueryChar f) (hc : xdigit.has c.toNat = true)
    (hmark : r.mark = (u.bytes ++ [35]).length)
    (h : Allows (phaseRows .fragmentHex) b.toNat (.goto actions ph)) :
    Leads ph (u.bytes ++ [35] ++ (f ++ [37, c])) u.callbacks b rest actions r := by
  simp only [phaseRows, allows_cons, allows_nil, or_false, go, Move.goto.injEq] at h
  obtain ⟨hb, rfl, rfl⟩ := h
  exact leads_silent rfl ((Reading.fragment (hf.snoc_escape hc hb) hmark).of_eq (by simp) rfl)

/-- The version has been begun. -/
theorem leads_version {t : RequestTarget} {k : Nat} (hk : k ≤ 7)
    (hmark : 0 < k → r.mark = (t.bytes ++ [32]).length)
    (h : Allows (phaseRows (.version k)) b.toNat (.goto actions ph)) :
    Leads ph (t.bytes ++ [32] ++ versionBytes.take k) t.callbacks b rest actions r := by
  rw [phaseRows] at h
  cases hn : versionPrefix[k]? with
  | some n =>
      have hlt : k < 7 := (List.getElem?_eq_some_iff.mp hn).1
      have htake : versionBytes.take (k + 1) = versionBytes.take k ++ [UInt8.ofNat n] := by
        rw [List.take_add_one, versionBytes, List.getElem?_map, hn]
        rfl
      simp only [hn, allows_cons, allows_nil, or_false, go, Move.goto.injEq] at h
      obtain ⟨hb, rfl, rfl⟩ := h
      obtain rfl := eq_of_has hb
      by_cases hzero : k = 0
      · subst hzero
        exact leads_silent rfl ((Reading.version hlt fun _ => by
          simp [Action.setRegisters, perform]).of_eq (by rw [htake, ← List.append_assoc]) rfl)
      · rw [if_neg hzero]
        exact leads_silent rfl ((Reading.version hlt fun _ => hmark (by omega)).of_eq
          (by rw [htake, ← List.append_assoc]) rfl)
  | none =>
      have hseven : k = 7 := by
        have : 7 ≤ k := List.getElem?_eq_none_iff.mp hn
        omega
      subst hseven
      simp only [hn, if_pos, allows_cons, allows_nil, or_false, go, Move.goto.injEq] at h
      obtain ⟨hb, rfl, rfl⟩ := h
      have hminor : b = 48 ∨ b = 49 := by
        obtain ⟨range, hrange, hlo, hhi⟩ := ByteClass.has_iff.mp hb
        obtain rfl := List.mem_singleton.mp hrange
        have hcases : b.toNat = 48 ∨ b.toNat = 49 := by
          dsimp only at hlo hhi
          omega
        exact hcases.imp UInt8.toNat_inj.mp UInt8.toNat_inj.mp
      exact leads_silent rfl ((Reading.minor hminor (hmark (by decide))).of_eq
        (List.append_assoc _ _ _).symm rfl)

/-- The digit of the minor version has been read. -/
theorem leads_minor {t : RequestTarget} {c : UInt8} (hc : c = 48 ∨ c = 49)
    (hmark : r.mark = (t.bytes ++ [32]).length)
    (h : Allows (phaseRows (.version 8)) b.toNat (.goto actions ph)) :
    Leads ph (t.bytes ++ [32] ++ (versionBytes ++ [c])) t.callbacks b rest actions r := by
  have hversion : text (t.bytes ++ [32] ++ (versionBytes ++ [c]) ++ b :: rest) r.mark
      (t.bytes ++ [32] ++ (versionBytes ++ [c])).length = some (versionBytes ++ [c]) :=
    text_since (b :: rest) hmark
  have hone : perform (t.bytes ++ [32] ++ (versionBytes ++ [c]) ++ b :: rest)
      (t.bytes ++ [32] ++ (versionBytes ++ [c])).length [.httpVersion] r =
      (r, [.httpVersion (some (versionBytes ++ [c]))]) := by
    simp only [perform, Action.setRegisters, Action.callback?, hversion]
    rfl
  have hrows : phaseRows (.version 8) =
      [go [⟨10, 10⟩] [.httpVersion] .line, go [⟨13, 13⟩] [.httpVersion] .lineEnd] := rfl
  simp only [hrows, allows_cons, allows_nil, or_false, go, Move.goto.injEq] at h
  rcases h with ⟨hb, rfl, rfl⟩ | ⟨hb, rfl, rfl⟩
  · obtain rfl := eq_of_has hb
    rw [Leads, hone]
    exact (Reading.line (l := t.withVersion c .lf hc)).of_eq
      (t.withVersion_bytes c .lf hc) (t.withVersion_callbacks c .lf hc)
  · obtain rfl := eq_of_has hb
    rw [Leads, hone]
    exact (Reading.lineEnd (l := t.withVersion c .crlf hc)
      (t.withVersion_bytes c .crlf hc)).of_eq rfl (t.withVersion_callbacks c .crlf hc)

/-- A line has ended, and a field or the empty line comes. -/
theorem leads_line {l : RequestLines}
    (h : Allows (phaseRows .line) b.toNat (.goto actions ph)) :
    Leads ph l.bytes l.callbacks b rest actions r := by
  simp only [phaseRows, allows_cons, allows_nil, or_false, go, finish, Move.goto.injEq,
    reduceCtorEq, and_false, false_or] at h
  rcases h with ⟨hb, rfl, rfl⟩ | ⟨hb, rfl, rfl⟩
  · refine leads_silent rfl (Reading.name (.plain hb Bytes.nil) ?_ rfl)
    rintro ⟨⟩
    exact absurd hb (by decide)
  · obtain rfl := eq_of_has hb
    exact leads_silent rfl (Reading.headEnd rfl)

/-- The name of a field has been begun. -/
theorem leads_name {l : RequestLines} {n : Str} (hn : FieldName n) (hne : n ≠ [13])
    (hstart : r.fieldStart = l.bytes.length)
    (h : Allows (phaseRows .name) b.toNat (.goto actions ph)) :
    Leads ph (l.bytes ++ n) l.callbacks b rest actions r := by
  simp only [phaseRows, allows_cons, allows_nil, or_false, go, Move.goto.injEq] at h
  rcases h with ⟨hb, rfl, rfl⟩ | ⟨hb, rfl, rfl⟩
  · have hne' : n ++ [b] ≠ [13] := by
      cases hn <;> simp
    exact leads_silent rfl ((Reading.name (hn.snoc hne hb) hne' hstart).of_eq
      (List.append_assoc _ _ _).symm rfl)
  · obtain rfl := eq_of_has hb
    refine leads_silent (perform_writeField (k := n.length) ?_)
      ((Reading.blanks (r := { r with fieldLen := n.length }) hn Bytes.nil hstart rfl).of_eq (List.append_nil _) rfl)
    rw [hstart, List.length_append, Nat.add_sub_cancel_left]

/-- The carriage return of the empty line, or of a name that begins so, has been read. -/
theorem leads_headEnd {l : RequestLines} (hstart : r.fieldStart = l.bytes.length)
    (h : Allows (phaseRows .headEnd) b.toNat (.goto actions ph)) :
    Leads ph (l.bytes ++ [13]) l.callbacks b rest actions r := by
  simp only [phaseRows, allows_cons, allows_nil, or_false, go, finish, Move.goto.injEq,
    reduceCtorEq, and_false, false_or] at h
  rcases h with ⟨hb, rfl, rfl⟩ | ⟨hb, rfl, rfl⟩
  · exact leads_silent rfl ((Reading.name (.afterCR hb Bytes.nil) (by simp) hstart).of_eq
      (by simp) rfl)
  · obtain rfl := eq_of_has hb
    refine leads_silent (perform_writeField (k := 1) ?_)
      ((Reading.blanks (r := { r with fieldLen := 1 }) .bare Bytes.nil hstart rfl).of_eq (List.append_nil _) rfl)
    rw [hstart, List.length_append, Nat.add_sub_cancel_left]
    rfl

/-- **A field is complete**: the callback is given its name and its value. -/
theorem leads_field {l : RequestLines} {n s v : Str} (r₁ : Registers) (hn : FieldName n)
    (hs : Bytes blank s) (hv : FieldValue v) {before : List Action}
    (hbefore : perform (l.bytes ++ n ++ [58] ++ s ++ v ++ b :: rest)
      (l.bytes ++ n ++ [58] ++ s ++ v).length before r = (r₁, []))
    (hstart : r₁.fieldStart = l.bytes.length) (hlen : r₁.fieldLen = n.length)
    (hmark : r₁.mark = (l.bytes ++ n ++ [58] ++ s).length)
    (h : Allows (fieldRows before) b.toNat (.goto actions ph)) :
    Leads ph (l.bytes ++ n ++ [58] ++ s ++ v) l.callbacks b rest actions r := by
  have hvalue : text (l.bytes ++ n ++ [58] ++ s ++ v ++ b :: rest) r₁.mark
      (l.bytes ++ n ++ [58] ++ s ++ v).length = some v := text_since (b :: rest) hmark
  have hname : (((l.bytes ++ n ++ [58] ++ s ++ v ++ b :: rest).take
      (l.bytes ++ n ++ [58] ++ s ++ v).length).drop r₁.fieldStart).take r₁.fieldLen = n := by
    have hsince := name_since (a := l.bytes) (n := n) (s := [58] ++ s ++ v) (b :: rest) hstart hlen
    simpa only [List.append_assoc] using hsince
  have hone : perform (l.bytes ++ n ++ [58] ++ s ++ v ++ b :: rest)
      (l.bytes ++ n ++ [58] ++ s ++ v).length [.writeValue] r₁ =
      (r₁, [.httpField n (some v)]) := by
    simp only [perform, Action.setRegisters, Action.callback?, hvalue, hname]
    rfl
  let field : LineEnd → HeadField := fun e => ⟨n, s, v, e, hn, hs, hv⟩
  have hbytes : ∀ e : LineEnd, (l.snoc (field e)).bytes =
      l.bytes ++ n ++ [58] ++ s ++ v ++ e.bytes := by
    intro e
    rw [RequestLines.snoc_bytes]
    simp [field, HeadField.bytes]
  simp only [fieldRows, allows_cons, allows_nil, or_false, go, Move.goto.injEq] at h
  rcases h with ⟨hb, rfl, rfl⟩ | ⟨hb, rfl, rfl⟩
  · obtain rfl := eq_of_has hb
    rw [Leads, perform_append, hbefore, hone]
    exact (Reading.line (l := l.snoc (field .lf))).of_eq (hbytes .lf)
      (l.snoc_callbacks (field .lf))
  · obtain rfl := eq_of_has hb
    rw [Leads, perform_append, hbefore, hone]
    exact (Reading.lineEnd (l := l.snoc (field .crlf)) (hbytes .crlf)).of_eq rfl
      (l.snoc_callbacks (field .crlf))

/-- The colon after a name and blanks have been read. -/
theorem leads_blanks {l : RequestLines} {n s : Str} (hn : FieldName n) (hs : Bytes blank s)
    (hstart : r.fieldStart = l.bytes.length) (hlen : r.fieldLen = n.length)
    (h : Allows (phaseRows .blanks) b.toNat (.goto actions ph)) :
    Leads ph (l.bytes ++ n ++ [58] ++ s) l.callbacks b rest actions r := by
  obtain ⟨r₁, hset, hmark, hstart₁, hlen₁⟩ : ∃ r₁ : Registers,
      (∀ buffer, perform buffer (l.bytes ++ n ++ [58] ++ s).length [.startValue] r = (r₁, [])) ∧
      r₁.mark = (l.bytes ++ n ++ [58] ++ s).length ∧ r₁.fieldStart = l.bytes.length ∧
      r₁.fieldLen = n.length :=
    ⟨{ r with mark := (l.bytes ++ n ++ [58] ++ s).length }, fun _ => rfl, rfl, hstart, hlen⟩
  rw [phaseRows, allows_cons, allows_cons] at h
  simp only [go, Move.goto.injEq] at h
  rcases h with ⟨hb, rfl, rfl⟩ | ⟨hb, rfl, rfl⟩ | h
  · exact leads_silent (hset _)
      (Reading.value hn hs (.cons hb Bytes.nil) (List.cons_ne_nil b []) hstart₁ hlen₁ hmark)
  · exact leads_silent (hset _)
      ((Reading.blanks hn (hs.snoc hb) hstart₁ hlen₁).of_eq (List.append_assoc _ _ _).symm rfl)
  · rw [← List.append_nil (l.bytes ++ n ++ [58] ++ s)] at hset ⊢
    exact leads_field r₁ hn hs .nil (hset _) hstart₁ hlen₁ hmark h

/-- The value of a field has been begun. -/
theorem leads_value {l : RequestLines} {n s v : Str} (hn : FieldName n) (hs : Bytes blank s)
    (hv : FieldValue v) (hne : v ≠ []) (hstart : r.fieldStart = l.bytes.length)
    (hlen : r.fieldLen = n.length) (hmark : r.mark = (l.bytes ++ n ++ [58] ++ s).length)
    (h : Allows (phaseRows .value) b.toNat (.goto actions ph)) :
    Leads ph (l.bytes ++ n ++ [58] ++ s ++ v) l.callbacks b rest actions r := by
  rw [phaseRows, allows_cons] at h
  simp only [go, Move.goto.injEq] at h
  rcases h with ⟨hb, rfl, rfl⟩ | h
  · exact leads_silent rfl ((Reading.value hn hs (hv.snoc hne hb) (by simp) hstart hlen
      hmark).of_eq (List.append_assoc _ _ _).symm rfl)
  · exact leads_field r hn hs hv rfl hstart hlen hmark h

/-- The carriage return of a line has been read. -/
theorem leads_lineEnd {a : Str} {l : RequestLines} (hl : l.bytes = a ++ [13, 10])
    (h : Allows (phaseRows .lineEnd) b.toNat (.goto actions ph)) :
    Leads ph (a ++ [13]) l.callbacks b rest actions r := by
  simp only [phaseRows, allows_cons, allows_nil, or_false, go, Move.goto.injEq] at h
  obtain ⟨hb, rfl, rfl⟩ := h
  obtain rfl := eq_of_has hb
  exact leads_silent rfl (Reading.line.of_eq (by rw [hl]; simp) rfl)

/-- The name of an XML message is over. -/
theorem leads_xml {n d : Str} (hn : Bytes xmlName n) (hpos : 1 ≤ n.length) {a : Str}
    (ha : a = 60 :: n ++ d)
    (h : Allows [go [⟨0, 61⟩, ⟨63, 255⟩] [] .xmlBody, go [⟨62, 62⟩] [] .xmlClose] b.toNat
      (.goto actions ph)) :
    Leads ph a [.requestPath (some (60 :: n))] b rest actions r := by
  subst ha
  simp only [allows_cons, allows_nil, or_false, go, Move.goto.injEq] at h
  rcases h with ⟨hb, rfl, rfl⟩ | ⟨hb, rfl, rfl⟩
  · exact leads_silent rfl ((Reading.xmlBody hn hpos).of_eq (List.append_assoc _ _ _).symm rfl)
  · obtain rfl := eq_of_has hb
    exact leads_silent rfl (Reading.xmlClose hn hpos)

/-- The name of an XML message has been begun. -/
theorem leads_xmlName {n : Str} (hn : Bytes xmlName n) (hpos : 1 ≤ n.length)
    (hmark : r.mark = 0) (h : Allows (phaseRows .xmlName) b.toNat (.goto actions ph)) :
    Leads ph (60 :: n) [] b rest actions r := by
  have hpath : text (60 :: n ++ b :: rest) r.mark (60 :: n).length = some (60 :: n) :=
    text_since (a := []) (b :: rest) hmark
  simp only [phaseRows, allows_cons, allows_nil, or_false, go, Move.goto.injEq] at h
  rcases h with ⟨hb, rfl, rfl⟩ | ⟨hb, rfl, rfl⟩
  · exact leads_silent rfl (Reading.xmlName (hn.snoc hb) (by simp) hmark)
  · have hone : perform (60 :: n ++ b :: rest) (60 :: n).length [.requestPath] r =
        (r, [.requestPath (some (60 :: n))]) := by
      simp only [perform, Action.setRegisters, Action.callback?, hpath]
      rfl
    rw [Leads, hone]
    exact Reading.xmlBody hn hpos

/-- The path of a JSON message has been begun. -/
theorem leads_jsonPath {p : Str} (hp : Bytes jsonPathChar p) (hmark : r.mark = 0)
    (h : Allows (phaseRows .jsonPath) b.toNat (.goto actions ph)) :
    Leads ph (64 :: p) [] b rest actions r := by
  have hpath : text (64 :: p ++ b :: rest) r.mark (64 :: p).length = some (64 :: p) :=
    text_since (a := []) (b :: rest) hmark
  simp only [phaseRows, allows_cons, allows_nil, or_false, go, Move.goto.injEq] at h
  rcases h with ⟨hb, rfl, rfl⟩ | ⟨hb, rfl, rfl⟩
  · exact leads_silent rfl (Reading.jsonPath (hp.snoc hb) hmark)
  · obtain rfl := eq_of_has hb
    have hone : perform (64 :: p ++ UInt8.ofNat 32 :: rest) (64 :: p).length [.requestPath] r =
        (r, [.requestPath (some (64 :: p))]) := by
      simp only [perform, Action.setRegisters, Action.callback?, hpath]
      rfl
    rw [Leads, hone]
    exact Reading.jsonBrace hp

/-- The object of a JSON message has been begun. -/
theorem leads_json {p d : Str} (hp : Bytes jsonPathChar p) {a : Str}
    (ha : a = 64 :: p ++ [32, 123] ++ d)
    (h : Allows [go [⟨0, 124⟩, ⟨126, 255⟩] [] .jsonBody, go [⟨125, 125⟩] [] .jsonClose] b.toNat
      (.goto actions ph)) :
    Leads ph a [.requestPath (some (64 :: p))] b rest actions r := by
  subst ha
  simp only [allows_cons, allows_nil, or_false, go, Move.goto.injEq] at h
  rcases h with ⟨hb, rfl, rfl⟩ | ⟨hb, rfl, rfl⟩
  · exact leads_silent rfl ((Reading.jsonBody hp).of_eq (List.append_assoc _ _ _).symm rfl)
  · obtain rfl := eq_of_has hb
    exact leads_silent rfl (Reading.jsonClose hp)

/-- **One byte.**  Every row of the table of phases keeps what has been read. -/
theorem Reading.step {ph' : Phase} {a : Str} {cbs : List Callback} (hread : Reading ph a r cbs)
    (h : Allows (phaseRows ph) b.toNat (.goto actions ph')) :
    Leads ph' a cbs b rest actions r := by
  cases hread with
  | start => exact leads_start h
  | method hm hmark => exact leads_method hm hmark h
  | target hm => exact leads_target hm h
  | scheme hm hs hmark => exact leads_scheme hm hs hmark h
  | schemeEnd hm hs => exact leads_schemeEnd hm hs h
  | path hp hmark => exact leads_path hp rfl hmark h
  | pathEscape hp hmark => exact leads_pathEscape hp hmark h
  | pathHex hp hh hmark => exact leads_pathHex hp hh hmark h
  | queryStart hp => exact leads_queryStart hp h
  | query hp hq hstart => exact leads_query hp hq rfl hstart h
  | queryEscape hp hq hstart => exact leads_queryEscape hp hq hstart h
  | queryHex hp hq hh hstart => exact leads_queryHex hp hq hh hstart h
  | fragmentStart => exact leads_fragmentStart h
  | fragment hf hmark => exact leads_fragment hf rfl hmark h
  | fragmentEscape hf hmark => exact leads_fragmentEscape hf hmark h
  | fragmentHex hf hh hmark => exact leads_fragmentHex hf hh hmark h
  | version hk hmark => exact leads_version hk hmark h
  | minor hb hmark => exact leads_minor hb hmark h
  | line => exact leads_line h
  | name hn hne hstart => exact leads_name hn hne hstart h
  | blanks hn hs hstart hlen => exact leads_blanks hn hs hstart hlen h
  | value hn hs hv hne hstart hlen hmark => exact leads_value hn hs hv hne hstart hlen hmark h
  | lineEnd hl => exact leads_lineEnd hl h
  | headEnd hstart => exact leads_headEnd hstart h
  | xmlStart hmark =>
      simp only [phaseRows, allows_cons, allows_nil, or_false, go, Move.goto.injEq] at h
      obtain ⟨hb, rfl, rfl⟩ := h
      exact leads_silent rfl (Reading.xmlName (Bytes.single hb) (Nat.le_refl 1) hmark)
  | xmlName hn hpos hmark => exact leads_xmlName hn hpos hmark h
  | xmlBody hn hpos => exact leads_xml hn hpos rfl h
  | xmlClose hn hpos =>
      refine leads_xml hn hpos (List.append_assoc _ _ _) ?_
      simp only [phaseRows, allows_cons, allows_nil, or_false, go, finish, Move.goto.injEq,
        reduceCtorEq, and_false, false_or] at h ⊢
      refine h.imp (fun hbody => ⟨ByteClass.has_of_within (by decide) hbody.1, hbody.2⟩) id
  | jsonPath hp hmark => exact leads_jsonPath hp hmark h
  | jsonBrace hp =>
      simp only [phaseRows, allows_cons, allows_nil, or_false, go, Move.goto.injEq] at h
      obtain ⟨hb, rfl, rfl⟩ := h
      obtain rfl := eq_of_has hb
      exact leads_silent rfl ((Reading.jsonBody (d := []) hp).of_eq (by simp) rfl)
  | jsonBody hp => exact leads_json hp rfl h
  | jsonClose hp =>
      refine leads_json hp (List.append_assoc _ _ _) ?_
      simp only [phaseRows, allows_cons, allows_nil, or_false, go, finish, Move.goto.injEq,
        reduceCtorEq, and_false, false_or] at h ⊢
      refine h.imp (fun hbody => ⟨ByteClass.has_of_within (by decide) hbody.1, hbody.2⟩) id

/-- Where a request may end. -/
theorem allows_done (h : Allows (phaseRows ph) b.toNat (.done actions)) :
    (ph = .line ∧ b = 10 ∧ actions = [.startField]) ∨ (ph = .headEnd ∧ b = 10 ∧ actions = []) ∨
      (ph = .xmlClose ∧ b = 0 ∧ actions = []) ∨ (ph = .jsonClose ∧ b = 0 ∧ actions = []) := by
  cases ph with
  | method k =>
      rw [phaseRows, allows_cons] at h
      split at h <;> simp [go] at h
  | version k =>
      rw [phaseRows] at h
      split at h
      · simp [go] at h
      · split at h <;> simp [go] at h
  | line | headEnd | xmlClose | jsonClose =>
      simp only [phaseRows, allows_cons, allows_nil, or_false, go, finish, Move.done.injEq,
        reduceCtorEq, and_false, false_or] at h
      obtain ⟨hb, rfl⟩ := h
      simp [eq_of_has hb]
  | _ =>
      simp [phaseRows, pathRows, queryRows, fragmentRows, fieldRows, go] at h

/-- **The last byte.** -/
theorem Reading.last {a : Str} {cbs : List Callback} (hread : Reading ph a r cbs)
    (h : Allows (phaseRows ph) b.toNat (.done actions)) :
    Taken (a ++ [b]) (cbs ++ (perform (a ++ b :: rest) a.length actions r).2) := by
  rcases allows_done h with ⟨rfl, rfl, rfl⟩ | ⟨rfl, rfl, rfl⟩ | ⟨rfl, rfl, rfl⟩ | ⟨rfl, rfl, rfl⟩
  · cases hread with
    | @line l _ =>
        exact (Taken.head { l with lastEnd := .lf }).of_eq rfl (List.append_nil _).symm
  · cases hread with
    | @headEnd l _ _ =>
        exact (Taken.head { l with lastEnd := .crlf }).of_eq
          (by simp [RequestHead.bytes, LineEnd.bytes]) (List.append_nil _).symm
  · cases hread with
    | @xmlClose n d _ hn hpos =>
        exact (Taken.xml ⟨n, d, hn, hpos⟩).of_eq (by simp [XmlMessage.bytes]) rfl
  · cases hread with
    | @jsonClose p d _ hp =>
        exact (Taken.json ⟨p, d, hp⟩).of_eq (by simp [JsonMessage.bytes]) rfl

end Step

/-! ## Runs -/

/-- What a run leaves behind, `before` being what was read and made before it. -/
def Outcome (buffer : Str) (before : List Callback) (e : Executed Nat) : Prop :=
  match e.cs with
  | .running s =>
      e.nread = buffer.length ∧ Reading (phaseOf s) buffer e.registers (before ++ e.callbacks)
  | .error =>
      e.nread < buffer.length ∧ ∃ ph,
        Reading ph (buffer.take e.nread) e.registers (before ++ e.callbacks)
  | .finished =>
      e.nread ≤ buffer.length ∧ Taken (buffer.take e.nread) (before ++ e.callbacks)

/-- What is explained with the callbacks of earlier steps is explained with them in front. -/
theorem Outcome.shift {buffer : Str} {before here : List Callback} {e : Executed Nat}
    (h : Outcome buffer (before ++ here) e) :
    Outcome buffer before { e with callbacks := here ++ e.callbacks } := by
  obtain ⟨cs, registers, callbacks, nread⟩ := e
  cases cs <;> simpa only [Outcome, List.append_assoc] using h

/-- **A run.** -/
theorem execLoop_outcome {uriRelaxed : Bool} {rest : Str} : ∀ {a : Str} {s : Nat}
    {r : Registers} {cbs : List Callback}, Reading (phaseOf s) a r cbs →
    Outcome (a ++ rest) cbs
      (execLoop (requestTokenizer uriRelaxed) (a ++ rest) rest a.length s r) := by
  induction rest with
  | nil =>
      intro a s r cbs h
      rw [List.append_nil, execLoop]
      exact ⟨rfl, by simpa using h⟩
  | cons b rest ih =>
      intro a s r cbs h
      rw [execLoop]
      cases hm : (requestTokenizer uriRelaxed).move s b with
      | error =>
          refine ⟨by simp, phaseOf s, ?_⟩
          simpa using h
      | done actions =>
          have htaken : Taken (a ++ [b])
              (cbs ++ (perform (a ++ b :: rest) a.length actions r).2) :=
            h.last (requestTokenizer_allows hm (by simp))
          have htake : (a ++ b :: rest).take (a.length + 1) = a ++ [b] := by
            rw [List.take_length_add_append]
            rfl
          refine ⟨by simp, ?_⟩
          rw [htake]
          exact htaken
      | goto actions s' =>
          have hleads : Leads (phaseOf s') a cbs b rest actions r :=
            h.step (requestTokenizer_allows hm (by simp))
          have hlater := ih (a := a ++ [b]) hleads
          rw [List.append_assoc, List.length_append] at hlater
          exact hlater.shift

/-- **`http_parser_execute` on a whole buffer.**  Whatever the bytes are, the callbacks are
those of the parts that have been read, in order and with the texts of the parts. -/
theorem httpParserExecute_outcome (uriRelaxed : Bool) (buffer : Str) :
    Outcome buffer [] (httpParserExecute (requestTokenizer uriRelaxed)
      (httpParserInit (requestTokenizer uriRelaxed)) buffer) :=
  execLoop_outcome (a := []) (s := 1) .start

/-! ## The callbacks of a run -/

/-- A callback with the texts that a head can have. -/
def Callback.Proper : Callback → Prop
  | .requestMethod text => ∃ m, MethodText m ∧ text = m ++ [32]
  | .requestUri => True
  | .fragment text => ∃ f, text = some f ∧ Escaped relaxedQueryChar f
  | .requestPath text => text.isSome
  | .queryString text => ∃ q, text = some q ∧ Escaped relaxedQueryChar q
  | .httpVersion text => ∃ d, text = some (versionBytes ++ [d]) ∧ (d = 48 ∨ d = 49)
  | .httpField field value => FieldName field ∧ ∃ v, value = some v ∧ FieldValue v

/-- All callbacks are proper. -/
def AllProper (cbs : List Callback) : Prop :=
  ∀ cb ∈ cbs, cb.Proper

section Proper

variable {cbs cbs' : List Callback}

/-- Two lists of proper callbacks make one. -/
theorem AllProper.append (h : AllProper cbs) (h' : AllProper cbs') : AllProper (cbs ++ cbs') := by
  intro cb hcb
  exact (List.mem_append.mp hcb).elim (h cb) (h' cb)

theorem AllProper.single {cb : Callback} (h : cb.Proper) : AllProper [cb] := by
  intro cb' hcb
  rwa [List.mem_singleton.mp hcb]

/-- The callback of an optional part is proper if that of the part is. -/
theorem AllProper.ofOption {β : Type} {part : Option β} {f : β → Callback}
    (h : ∀ x ∈ part, (f x).Proper) : AllProper (part.map f).toList := by
  cases part with
  | none => exact fun _ hcb => nomatch hcb
  | some x => exact .single (h x rfl)

/-- The callbacks before the path are proper. -/
theorem RequestStart.proper (t : RequestStart) : AllProper t.callbacks :=
  .single ⟨t.method, t.method_ok, rfl⟩

/-- The callbacks of path and query are proper. -/
theorem RequestUri.proper (u : RequestUri) : AllProper u.callbacks := by
  have hquery : AllProper (u.query.map fun q => .queryString (some q)).toList :=
    .ofOption fun q hq => ⟨q, rfl, u.query_ok q hq⟩
  have hpath : AllProper [.requestPath (some u.path)] := .single rfl
  have huri : AllProper [.requestUri] := .single trivial
  exact ((u.toRequestStart.proper.append hpath).append hquery).append huri

/-- The callbacks of a target are proper. -/
theorem RequestTarget.proper (t : RequestTarget) : AllProper t.callbacks :=
  t.toRequestUri.proper.append (.ofOption fun f hf => ⟨f, rfl, t.fragment_ok f hf⟩)

/-- The callbacks of a request line are proper. -/
theorem RequestLine.proper (l : RequestLine) : AllProper l.callbacks :=
  l.toRequestTarget.proper.append (.single ⟨l.minor, rfl, l.minor_ok⟩)

/-- The callbacks of the lines of a head are proper. -/
theorem RequestLines.proper (l : RequestLines) : AllProper l.callbacks := by
  refine l.toRequestLine.proper.append fun cb hcb => ?_
  obtain ⟨f, -, rfl⟩ := List.mem_map.mp hcb
  exact ⟨f.name_ok, f.value, rfl, f.value_ok⟩

/-- The callbacks of whatever has been taken are proper. -/
theorem Taken.proper {a : Str} (h : Taken a cbs) : AllProper cbs := by
  cases h with
  | head h => exact h.toRequestLines.proper
  | xml m => exact .single rfl
  | json m => exact .single rfl

/-- The callbacks of whatever is being read are proper. -/
theorem Reading.proper {ph : Phase} {a : Str} {r : Registers} (h : Reading ph a r cbs) :
    AllProper cbs := by
  have hpath : ∀ (t : RequestStart) (p : Str),
      AllProper (t.callbacks ++ [.requestPath (some p)]) :=
    fun t p => t.proper.append (.single rfl)
  cases h with
  | start | method | xmlStart | xmlName | jsonPath => exact fun _ hcb => nomatch hcb
  | target hm | scheme hm | schemeEnd hm => exact .single ⟨_, hm, rfl⟩
  | path | pathEscape | pathHex => exact RequestStart.proper _
  | queryStart | query | queryEscape | queryHex => exact hpath _ _
  | fragmentStart | fragment | fragmentEscape | fragmentHex => exact RequestUri.proper _
  | version | minor => exact RequestTarget.proper _
  | line | name | blanks | value | lineEnd | headEnd => exact RequestLines.proper _
  | xmlBody | xmlClose | jsonBrace | jsonBody | jsonClose => exact .single rfl

/-- Whatever comes out of a run that begins with no callbacks, its callbacks are proper. -/
theorem Outcome.proper {buffer : Str} {e : Executed Nat} (h : Outcome buffer [] e) :
    AllProper e.callbacks := by
  unfold Outcome at h
  split at h
  · exact h.2.proper
  · obtain ⟨-, ph, hread⟩ := h
    exact hread.proper
  · exact h.2.proper

end Proper

end Http

end Agent
