import GServer.Library.OrderedMap

/-!
# HTTP messages and their stores

Headers, params and cookies live in `std::map`s ordered by `CaseInsensitiveLess`.
A call on a map whose comparator breaks the contract of `std::map` has no defined
result: here it is `none`.

Strings are lists of bytes.  `m_status` of a request is never set before it is
read and is left out.
-/

namespace Agent

open OrderedMaps

namespace Http

/-- `std::string`. -/
abbrev Str : Type := List UInt8

/-! ## The comparator -/

/-- The bytes that `c_str()` shows to a C function. -/
def cStr (s : Str) : Str :=
  s.takeWhile (· ≠ 0)

/-- `tolower` in the C locale. -/
def toLower (c : UInt8) : UInt8 :=
  if 65 ≤ c ∧ c ≤ 90 then c + 32 else c

/-- `strcasecmp`: the difference at the first place where the strings differ, their
terminators included. -/
def strcasecmp : Str → Str → Int
  | [], [] => 0
  | [], b :: _ => -(toLower b).toNat
  | a :: _, [] => (toLower a).toNat
  | a :: as, b :: bs =>
      if toLower a = toLower b then strcasecmp as bs
      else (toLower a).toNat - (toLower b).toNat

/-- `CaseInsensitiveLess::operator()`: the `int` is converted to `bool`. -/
def caseInsensitiveLess (lhs rhs : Str) : Bool :=
  strcasecmp (cStr lhs) (cStr rhs) ≠ 0

/-! ## The stores -/

/-- The operations of a store of strings; `none` where nothing is promised. -/
class KeyedStore (M : Type) where
  empty : M
  find : M → Str → Option (Option Str)
  assign : M → Str → Str → Option M
  erase : M → Str → Option M

/-- `HttpRequest::MapType` and `HttpResponse::MapType`. -/
abbrev MapType : Type := OrderedMap Str Str

instance : KeyedStore MapType where
  empty := OrderedMap.empty
  find := OrderedMap.find caseInsensitiveLess
  assign := OrderedMap.assign caseInsensitiveLess
  erase := OrderedMap.erase caseInsensitiveLess

/-- `HttpMethod`. -/
inductive HttpMethod
  | DELETE | GET | HEAD | POST | PUT
  | CONNECT | OPTIONS | TRACE
  | COPY | LOCK | MKCOL | MOVE | PROPFIND | PROPPATCH | SEARCH | UNLOCK | BIND | REBIND
  | UNBIND | ACL
  | REPORT | MKACTIVITY | CHECKOUT | MERGE
  | MSEARCH | NOTIFY | SUBSCRIBE | UNSUBSCRIBE
  | PATCH | PURGE
  | MKCALENDAR
  | LINK | UNLINK
  | SOURCE
  | INVALID_METHOD
deriving DecidableEq

/-- `HttpRequest`, over the type of its stores. -/
structure HttpRequest (M : Type) where
  method : HttpMethod
  version : UInt8
  close : Bool
  path : Str
  query : Str
  fragment : Str
  body : Str
  headers : M
  params : M
  cookies : M
deriving DecidableEq

/-- `HttpResponse`, as far as its store goes. -/
structure HttpResponse (M : Type) where
  headers : M

section Stores

variable {M : Type} [KeyedStore M]

/-- `operator[]` and the assignment. -/
def setIn (m : M) (key val : Str) : Option M :=
  KeyedStore.assign m key val

/-- What `getHeader` and its siblings do with the result of `find`. -/
def getFrom (m : M) (key dflt : Str) : Option Str :=
  (KeyedStore.find m key).map fun found => found.getD dflt

namespace HttpRequest

/-- `HttpRequest::HttpRequest`. -/
def new (version : UInt8) (close : Bool) : HttpRequest M where
  method := .GET
  version := version
  close := close
  path := [47]
  query := []
  fragment := []
  body := []
  headers := KeyedStore.empty
  params := KeyedStore.empty
  cookies := KeyedStore.empty

def getHeader (r : HttpRequest M) (key dflt : Str) : Option Str := getFrom r.headers key dflt
def getParam (r : HttpRequest M) (key dflt : Str) : Option Str := getFrom r.params key dflt
def getCookie (r : HttpRequest M) (key dflt : Str) : Option Str := getFrom r.cookies key dflt

def setHeader (r : HttpRequest M) (key val : Str) : Option (HttpRequest M) :=
  (setIn r.headers key val).map fun m => { r with headers := m }

def setParam (r : HttpRequest M) (key val : Str) : Option (HttpRequest M) :=
  (setIn r.params key val).map fun m => { r with params := m }

def setCookie (r : HttpRequest M) (key val : Str) : Option (HttpRequest M) :=
  (setIn r.cookies key val).map fun m => { r with cookies := m }

def delHeader (r : HttpRequest M) (key : Str) : Option (HttpRequest M) :=
  (KeyedStore.erase r.headers key).map fun m => { r with headers := m }

def delParam (r : HttpRequest M) (key : Str) : Option (HttpRequest M) :=
  (KeyedStore.erase r.params key).map fun m => { r with params := m }

def delCookie (r : HttpRequest M) (key : Str) : Option (HttpRequest M) :=
  (KeyedStore.erase r.cookies key).map fun m => { r with cookies := m }

end HttpRequest

namespace HttpResponse

/-- `HttpResponse::HttpResponse`. -/
def new : HttpResponse M where
  headers := KeyedStore.empty

def getHeader (r : HttpResponse M) (key dflt : Str) : Option Str := getFrom r.headers key dflt

def setHeader (r : HttpResponse M) (key val : Str) : Option (HttpResponse M) :=
  (setIn r.headers key val).map fun m => { r with headers := m }

def delHeader (r : HttpResponse M) (key : Str) : Option (HttpResponse M) :=
  (KeyedStore.erase r.headers key).map fun m => { r with headers := m }

end HttpResponse

end Stores

/-! ## What the comparator decides -/

/-- The strings are equal ignoring ASCII case. -/
def EqualIgnoringCase (a b : Str) : Prop :=
  a.map toLower = b.map toLower

instance (a b : Str) : Decidable (EqualIgnoringCase a b) :=
  inferInstanceAs (Decidable (_ = _))

/-- A text is equal to itself. -/
theorem EqualIgnoringCase.refl (a : Str) : EqualIgnoringCase a a :=
  Eq.refl _

/-- The two texts may be exchanged. -/
theorem EqualIgnoringCase.symm {a b : Str} (h : EqualIgnoringCase a b) :
    EqualIgnoringCase b a :=
  Eq.symm h

/-- Two texts that are equal to a third are equal. -/
theorem EqualIgnoringCase.trans {a b c : Str} (h : EqualIgnoringCase a b)
    (h' : EqualIgnoringCase b c) : EqualIgnoringCase a c :=
  Eq.trans h h'

/-- Only the terminator becomes zero. -/
theorem toLower_eq_zero {c : UInt8} : toLower c = 0 ↔ c = 0 := by
  unfold toLower
  constructor
  · split
    · rename_i h
      intro hc
      have h65 : 65 ≤ c.toNat := UInt8.le_iff_toNat_le.mp h.1
      have h90 : c.toNat ≤ 90 := UInt8.le_iff_toNat_le.mp h.2
      have hsum : (c + 32).toNat = 0 := congrArg UInt8.toNat hc
      rw [UInt8.toNat_add] at hsum
      have : (32 : UInt8).toNat = 32 := rfl
      omega
    · exact id
  · rintro rfl
    rfl

/-- The comparison of C strings finds no difference exactly when there is none up to
case. -/
theorem strcasecmp_eq_zero_iff (as bs : Str) (ha : ∀ a ∈ as, a ≠ 0) (hb : ∀ b ∈ bs, b ≠ 0) :
    strcasecmp as bs = 0 ↔ EqualIgnoringCase as bs := by
  induction as generalizing bs with
  | nil =>
      cases bs with
      | nil => exact iff_of_true rfl rfl
      | cons b bs =>
          have hb0 : (toLower b).toNat ≠ 0 := by
            intro h
            exact hb b List.mem_cons_self (toLower_eq_zero.mp (UInt8.toNat_inj.mp h))
          simp only [strcasecmp, EqualIgnoringCase, List.map_nil, List.map_cons]
          exact iff_of_false (by omega) nofun
  | cons a as ih =>
      cases bs with
      | nil =>
          have ha0 : (toLower a).toNat ≠ 0 := by
            intro h
            exact ha a List.mem_cons_self (toLower_eq_zero.mp (UInt8.toNat_inj.mp h))
          simp only [strcasecmp, EqualIgnoringCase, List.map_nil, List.map_cons]
          exact iff_of_false (by omega) nofun
      | cons b bs =>
          have hrest := ih bs (fun c hc => ha c (List.mem_cons_of_mem a hc))
            (fun c hc => hb c (List.mem_cons_of_mem b hc))
          simp only [strcasecmp, EqualIgnoringCase, List.map_cons, List.cons.injEq]
          by_cases heq : toLower a = toLower b
          · rw [if_pos heq, hrest]
            exact (and_iff_right heq).symm
          · have hne : (toLower a).toNat ≠ (toLower b).toNat :=
              fun h => heq (UInt8.toNat_inj.mp h)
            rw [if_neg heq]
            exact iff_of_false (by omega) (fun h => heq h.1)

/-- A C string ends before its first zero. -/
theorem cStr_ne_zero (s : Str) : ∀ c ∈ cStr s, c ≠ 0 := by
  intro c hc
  have := List.all_takeWhile (p := fun c : UInt8 => decide (c ≠ 0)) (l := s)
  rw [List.all_eq_true] at this
  simpa using this c hc

/-- The comparator is true exactly for keys that differ as C strings, up to case. -/
theorem caseInsensitiveLess_iff (a b : Str) :
    caseInsensitiveLess a b = true ↔ ¬ EqualIgnoringCase (cStr a) (cStr b) := by
  simp only [caseInsensitiveLess, decide_eq_true_eq]
  exact not_congr (strcasecmp_eq_zero_iff _ _ (cStr_ne_zero a) (cStr_ne_zero b))

/-- What is cut off at a terminator is cut off at the same place in a string that is
equal ignoring case. -/
theorem EqualIgnoringCase.cStr {a b : Str} (h : EqualIgnoringCase a b) :
    EqualIgnoringCase (cStr a) (cStr b) := by
  induction a generalizing b with
  | nil =>
      obtain rfl : b = [] := List.map_eq_nil_iff.mp h.symm
      rfl
  | cons x a ih =>
      cases b with
      | nil => cases h
      | cons y b =>
          simp only [EqualIgnoringCase, List.map_cons, List.cons.injEq] at h
          obtain ⟨hxy, hab⟩ := h
          have hzero : x = 0 ↔ y = 0 := by
            rw [← toLower_eq_zero, hxy, toLower_eq_zero]
          unfold Http.cStr
          rw [List.takeWhile_cons, List.takeWhile_cons]
          by_cases hx : x = 0
          · have hy := hzero.mp hx
            simp [hx, hy, EqualIgnoringCase]
          · have hy : ¬ y = 0 := fun hy => hx (hzero.mpr hy)
            simp only [hx, hy, ne_eq, not_false_eq_true, decide_true, if_true, EqualIgnoringCase,
              List.map_cons, hxy]
            exact congrArg _ (ih hab)

end Http

end Agent
