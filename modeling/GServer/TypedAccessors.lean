import GServer.HeaderStore
import GServer.HttpSession

/-!
# Typed accessors of messages

`getAs` and `checkGetAs` look a key up in a store and convert the string with
`boost::lexical_cast`.  The members of `HttpRequest` and `HttpResponse` wrap
them, each over a store and with a return type of its own; four of them return
`bool` where their siblings return `T`.
-/

namespace Agent

open OrderedMaps

namespace Http

/-! ## The templates -/

/-- The conversions between `T` and `bool`.  A type without them, such as `std::string`,
does not compile where a `T` is returned as `bool`. -/
structure BoolConversion (T : Type) where
  toBool : T → Bool
  ofBool : Bool → T
  toBool_ofBool : ∀ b, toBool (ofBool b) = b

/-- `uint64_t` and `bool`. -/
def uint64Bool : BoolConversion UInt64 where
  toBool w := w ≠ 0
  ofBool b := if b then 1 else 0
  toBool_ofBool := by decide

section Templates

variable {M : Type} [KeyedStore M] {T : Type} (lexicalCast : Str → Option T)

/-- `getAs`; `lexicalCast` is `boost::lexical_cast<T>`, `none` where it throws. -/
def getAs (m : M) (key : Str) (dflt : T) : Option T :=
  (KeyedStore.find m key).map fun it =>
    match it with
    | none => dflt
    | some second =>
        match lexicalCast second with
        | some v => v
        | none => dflt

/-- `checkGetAs`: what it returns, and `val` afterwards. -/
def checkGetAs (m : M) (key : Str) (dflt : T) : Option (Bool × T) :=
  (KeyedStore.find m key).map fun it =>
    match it with
    | none => (false, dflt)
    | some second =>
        match lexicalCast second with
        | some v => (false, v)
        | none => (false, dflt)

namespace HttpRequest

def getHeaderAs (r : HttpRequest M) (key : Str) (dflt : T) : Option T :=
  getAs lexicalCast r.headers key dflt

def checkGetHeaderAs (r : HttpRequest M) (key : Str) (dflt : T) : Option (Bool × T) :=
  checkGetAs lexicalCast r.headers key dflt

/-- `HttpRequest::getParamAs`, which reads `m_headers`. -/
def getParamAs (conv : BoolConversion T) (r : HttpRequest M) (key : Str) (dflt : T) :
    Option Bool :=
  (getAs lexicalCast r.headers key dflt).map conv.toBool

def checkGetParamAs (r : HttpRequest M) (key : Str) (dflt : T) : Option (Bool × T) :=
  checkGetAs lexicalCast r.params key dflt

def getParamsAs (conv : BoolConversion T) (r : HttpRequest M) (key : Str) (dflt : T) :
    Option Bool :=
  (getAs lexicalCast r.params key dflt).map conv.toBool

def checkGetCookieAs (r : HttpRequest M) (key : Str) (dflt : T) : Option (Bool × T) :=
  checkGetAs lexicalCast r.cookies key dflt

def getCookieAs (conv : BoolConversion T) (r : HttpRequest M) (key : Str) (dflt : T) :
    Option Bool :=
  (getAs lexicalCast r.cookies key dflt).map conv.toBool

end HttpRequest

namespace HttpResponse

def checkGetHeaderAs (s : HttpResponse M) (key : Str) (dflt : T) : Option (Bool × T) :=
  checkGetAs lexicalCast s.headers key dflt

def getHeaderAs (conv : BoolConversion T) (s : HttpResponse M) (key : Str) (dflt : T) :
    Option Bool :=
  (getAs lexicalCast s.headers key dflt).map conv.toBool

end HttpResponse

/-- `HttpResponseParser::getContentLength`: the `bool` becomes a `uint64_t`. -/
def HttpResponseParser.getContentLength (lexicalCast : Str → Option UInt64)
    (m_data : HttpResponse M) : Option UInt64 :=
  (m_data.getHeaderAs lexicalCast uint64Bool (ascii "content-length") 0).map uint64Bool.ofBool

end Templates

/-! ## What is stored under a key -/

/-- The string of the entry whose key the comparator does not tell from `key`. -/
def storedUnder (m : MapType) (key : Str) : Option Str :=
  m.valueWhere fun a => equivalent caseInsensitiveLess a key

/-- Every key of the store equals `key` as a C string, ignoring case. -/
def Searchable (m : MapType) (key : Str) : Prop :=
  ∀ a ∈ m.keys, caseInsensitiveLess a key = false

instance (m : MapType) (key : Str) : Decidable (Searchable m key) :=
  inferInstanceAs (Decidable (∀ a ∈ m.keys, _))

/-- What is less than none of two neighbours is not less than the farther one. -/
theorem caseInsensitiveLess_trans {a b c : Str} (hab : caseInsensitiveLess a b = false)
    (hbc : caseInsensitiveLess b c = false) : caseInsensitiveLess a c = false := by
  rw [← Bool.not_eq_true, caseInsensitiveLess_iff, Decidable.not_not] at hab hbc ⊢
  exact hab.trans hbc

/-- The comparator keeps its contract exactly when it tells no key from the one that is
looked up. -/
theorem strictWeak_cons_iff (m : MapType) (key : Str) :
    StrictWeak caseInsensitiveLess (key :: m.keys) ↔ Searchable m key := by
  rw [strictWeak_iff]
  constructor
  · intro hfalse a ha
    exact hfalse a (List.mem_cons_of_mem key ha) key List.mem_cons_self
  · intro hsame
    have hkey : ∀ a ∈ key :: m.keys, caseInsensitiveLess a key = false := by
      intro a ha
      rcases List.mem_cons.mp ha with rfl | ha
      · exact caseInsensitiveLess_of_equal (.refl a)
      · exact hsame a ha
    intro a ha b hb
    refine caseInsensitiveLess_trans (hkey a ha) ?_
    rw [caseInsensitiveLess_comm]
    exact hkey b hb

/-- A key is found exactly in a store that can be searched for it. -/
theorem find_eq_some_iff {m : MapType} {key : Str} {found : Option Str} :
    KeyedStore.find m key = some found ↔ Searchable m key ∧ storedUnder m key = found := by
  rw [← strictWeak_cons_iff]
  exact Option.ite_none_right_eq_some.trans (and_congr_right fun _ => Option.some_inj)

/-! ## What a typed accessor is for -/

section Typed

variable {T : Type} (lexicalCast : Str → Option T)

/-- The value of the string under `key`, if there is one and the cast does not throw. -/
def cast? (m : MapType) (key : Str) : Option T :=
  (storedUnder m key).bind lexicalCast

/-- That value, or the default. -/
def typedValue (m : MapType) (key : Str) (dflt : T) : T :=
  (cast? lexicalCast m key).getD dflt

/-- The value is one that a `bool` converts to: `0` or `1` for an arithmetic type. -/
def BoolConversion.IsBool (conv : BoolConversion T) (w : T) : Prop :=
  w = conv.ofBool false ∨ w = conv.ofBool true

/-- A value is a boolean's exactly when it survives the conversion. -/
theorem BoolConversion.isBool_iff (conv : BoolConversion T) (w : T) :
    conv.IsBool w ↔ conv.ofBool (conv.toBool w) = w := by
  constructor
  · rintro (rfl | rfl)
    · rw [conv.toBool_ofBool]
    · rw [conv.toBool_ofBool]
  · intro hback
    cases htrue : conv.toBool w with
    | false =>
        rw [htrue] at hback
        exact Or.inl hback.symm
    | true =>
        rw [htrue] at hback
        exact Or.inr hback.symm

/-- The members of `HttpRequest` and `HttpResponse`, with the conversions that the call
makes. -/
inductive Accessor (T : Type)
  | getHeaderAs
  | checkGetHeaderAs
  | getParamAs (conv : BoolConversion T)
  | checkGetParamAs
  | getParamsAs (conv : BoolConversion T)
  | checkGetCookieAs
  | getCookieAs (conv : BoolConversion T)
  | responseCheckGetHeaderAs
  | responseGetHeaderAs (conv : BoolConversion T)

/-- The caller of a `bool` member has the value of `key` in `m`. -/
def ReturnsValue (conv : BoolConversion T) (got : Option Bool) (m : MapType) (key : Str)
    (dflt : T) : Prop :=
  got.map conv.ofBool = some (typedValue lexicalCast m key dflt)

/-- The value of `key` in `m` is stored, and whether it was read is returned. -/
def Checks (got : Option (Bool × T)) (m : MapType) (key : Str) (dflt : T) : Prop :=
  got = some ((cast? lexicalCast m key).isSome, typedValue lexicalCast m key dflt)

/-- The call gives the value of `key` in the store that the member is named after. -/
def Faithful (r : HttpRequest MapType) (s : HttpResponse MapType) (key : Str) (dflt : T) :
    Accessor T → Prop
  | .getHeaderAs =>
      r.getHeaderAs lexicalCast key dflt = some (typedValue lexicalCast r.headers key dflt)
  | .checkGetHeaderAs =>
      Checks lexicalCast (r.checkGetHeaderAs lexicalCast key dflt) r.headers key dflt
  | .getParamAs conv =>
      ReturnsValue lexicalCast conv (r.getParamAs lexicalCast conv key dflt) r.params key dflt
  | .checkGetParamAs =>
      Checks lexicalCast (r.checkGetParamAs lexicalCast key dflt) r.params key dflt
  | .getParamsAs conv =>
      ReturnsValue lexicalCast conv (r.getParamsAs lexicalCast conv key dflt) r.params key dflt
  | .checkGetCookieAs =>
      Checks lexicalCast (r.checkGetCookieAs lexicalCast key dflt) r.cookies key dflt
  | .getCookieAs conv =>
      ReturnsValue lexicalCast conv (r.getCookieAs lexicalCast conv key dflt) r.cookies key dflt
  | .responseCheckGetHeaderAs =>
      Checks lexicalCast (s.checkGetHeaderAs lexicalCast key dflt) s.headers key dflt
  | .responseGetHeaderAs conv =>
      ReturnsValue lexicalCast conv (s.getHeaderAs lexicalCast conv key dflt) s.headers key dflt

/-- The length that the header announces is returned. -/
def LengthRead (lexicalCast : Str → Option UInt64) (s : HttpResponse MapType) : Prop :=
  HttpResponseParser.getContentLength lexicalCast s =
    some (typedValue lexicalCast s.headers (ascii "content-length") 0)

/-! ## Where the accessors are right -/

/-- The store can be searched, and no value is read. -/
def NothingRead (m : MapType) (key : Str) : Prop :=
  Searchable m key ∧ cast? lexicalCast m key = none

/-- The store can be searched, and the value is one of a `bool`. -/
def BoolStored (conv : BoolConversion T) (m : MapType) (key : Str) (dflt : T) : Prop :=
  Searchable m key ∧ conv.IsBool (typedValue lexicalCast m key dflt)

/-- Where a member gives what it should. -/
def Guard (r : HttpRequest MapType) (s : HttpResponse MapType) (key : Str) (dflt : T) :
    Accessor T → Prop
  | .getHeaderAs => Searchable r.headers key
  | .checkGetHeaderAs => NothingRead lexicalCast r.headers key
  | .getParamAs conv =>
      Searchable r.headers key ∧ conv.IsBool (typedValue lexicalCast r.params key dflt) ∧
        conv.toBool (typedValue lexicalCast r.headers key dflt) =
          conv.toBool (typedValue lexicalCast r.params key dflt)
  | .checkGetParamAs => NothingRead lexicalCast r.params key
  | .getParamsAs conv => BoolStored lexicalCast conv r.params key dflt
  | .checkGetCookieAs => NothingRead lexicalCast r.cookies key
  | .getCookieAs conv => BoolStored lexicalCast conv r.cookies key dflt
  | .responseCheckGetHeaderAs => NothingRead lexicalCast s.headers key
  | .responseGetHeaderAs conv => BoolStored lexicalCast conv s.headers key dflt

variable {lexicalCast} {m : MapType} {key : Str} {dflt : T}

/-- A template's result is a function of what is stored. -/
theorem map_find_eq_some_iff {R : Type} {f : Option Str → R} {w : R} :
    (KeyedStore.find m key).map f = some w ↔ Searchable m key ∧ f (storedUnder m key) = w := by
  rw [Option.map_eq_some_iff]
  constructor
  · rintro ⟨found, hfind, rfl⟩
    obtain ⟨hsearch, rfl⟩ := find_eq_some_iff.mp hfind
    exact ⟨hsearch, rfl⟩
  · rintro ⟨hsearch, rfl⟩
    exact ⟨_, find_eq_some_iff.mpr ⟨hsearch, rfl⟩, rfl⟩

/-- `getAs` gives the stored value as converted, in a store that can be searched. -/
theorem getAs_eq_some_iff {w : T} :
    getAs lexicalCast m key dflt = some w ↔
      Searchable m key ∧ typedValue lexicalCast m key dflt = w := by
  rw [getAs, map_find_eq_some_iff, typedValue, cast?]
  cases hstored : storedUnder m key with
  | none => rfl
  | some second =>
      cases hcast : lexicalCast second with
      | none => simp only [hcast, Option.bind_some, Option.getD_none]
      | some v => simp only [hcast, Option.bind_some, Option.getD_some]

/-- `checkGetAs` stores the right value and returns `false`. -/
theorem checkGetAs_eq_some_iff {ok : Bool} {w : T} :
    checkGetAs lexicalCast m key dflt = some (ok, w) ↔
      Searchable m key ∧ false = ok ∧ typedValue lexicalCast m key dflt = w := by
  rw [checkGetAs, map_find_eq_some_iff, typedValue, cast?]
  cases hstored : storedUnder m key with
  | none => simp only [Option.bind_none, Option.getD_none, Prod.mk.injEq]
  | some second =>
      cases hcast : lexicalCast second with
      | none => simp only [hcast, Option.bind_some, Option.getD_none, Prod.mk.injEq]
      | some v => simp only [hcast, Option.bind_some, Option.getD_some, Prod.mk.injEq]

/-- `checkGetAs` agrees with it exactly when nothing is read. -/
theorem checks_iff :
    Checks lexicalCast (checkGetAs lexicalCast m key dflt) m key dflt ↔
      NothingRead lexicalCast m key := by
  rw [Checks, checkGetAs_eq_some_iff, NothingRead, eq_comm, Option.isSome_eq_false_iff,
    Option.isNone_iff_eq_none]
  exact and_congr_right fun _ => and_iff_left rfl

/-- A value that goes through `bool`, read from one store for another. -/
theorem returnsValue_iff {conv : BoolConversion T} (m' : MapType) :
    ReturnsValue lexicalCast conv ((getAs lexicalCast m key dflt).map conv.toBool) m' key dflt ↔
      Searchable m key ∧ conv.IsBool (typedValue lexicalCast m' key dflt) ∧
        conv.toBool (typedValue lexicalCast m key dflt) =
          conv.toBool (typedValue lexicalCast m' key dflt) := by
  rw [ReturnsValue, Option.map_map, Option.map_eq_some_iff, conv.isBool_iff]
  constructor
  · rintro ⟨w, hget, hback⟩
    obtain ⟨hsearch, rfl⟩ := getAs_eq_some_iff.mp hget
    have htrue := congrArg conv.toBool hback
    simp only [Function.comp_apply, conv.toBool_ofBool] at hback htrue
    rw [← htrue]
    exact ⟨hsearch, hback, rfl⟩
  · rintro ⟨hsearch, hback, htrue⟩
    refine ⟨_, getAs_eq_some_iff.mpr ⟨hsearch, rfl⟩, ?_⟩
    rw [Function.comp_apply, htrue, hback]

/-- Converted to a boolean the value is that of the claim exactly when a boolean is stored. -/
theorem returnsValue_same_iff {conv : BoolConversion T} :
    ReturnsValue lexicalCast conv ((getAs lexicalCast m key dflt).map conv.toBool) m key dflt ↔
      BoolStored lexicalCast conv m key dflt := by
  rw [returnsValue_iff, BoolStored]
  exact and_congr_right fun _ => and_iff_left rfl

/-- **One call.**  A member gives what it should exactly under its guard. -/
theorem faithful_iff (r : HttpRequest MapType) (s : HttpResponse MapType) (a : Accessor T) :
    Faithful lexicalCast r s key dflt a ↔ Guard lexicalCast r s key dflt a := by
  cases a with
  | getHeaderAs => exact getAs_eq_some_iff.trans (and_iff_left rfl)
  | checkGetHeaderAs => exact checks_iff
  | getParamAs conv => exact returnsValue_iff r.params
  | checkGetParamAs => exact checks_iff
  | getParamsAs conv => exact returnsValue_same_iff
  | checkGetCookieAs => exact checks_iff
  | getCookieAs conv => exact returnsValue_same_iff
  | responseCheckGetHeaderAs => exact checks_iff
  | responseGetHeaderAs conv => exact returnsValue_same_iff

end Typed

/-- **Typed accessors.**  For every message, target type, cast, key and default, a member
gives what is stored exactly under its guard, and `getContentLength` gives the length
exactly where the headers can be searched and the length is `0` or `1`. -/
theorem typedAccessors_iff (r : HttpRequest MapType) (s : HttpResponse MapType) :
    (∀ (T : Type) (lexicalCast : Str → Option T) (key : Str) (dflt : T) (a : Accessor T),
      Faithful lexicalCast r s key dflt a ↔ Guard lexicalCast r s key dflt a) ∧
    ∀ lexicalCast : Str → Option UInt64,
      LengthRead lexicalCast s ↔
        Searchable s.headers (ascii "content-length") ∧
          (typedValue lexicalCast s.headers (ascii "content-length") 0 = 0 ∨
            typedValue lexicalCast s.headers (ascii "content-length") 0 = 1) := by
  constructor
  · intro T lexicalCast key dflt a
    exact faithful_iff r s a
  · intro lexicalCast
    exact returnsValue_same_iff

/-- A response of two bytes is read as one of one byte. -/
theorem length_of_two_read_as_one :
    ¬ ∀ (r : HttpRequest MapType) (s : HttpResponse MapType),
      (∀ (T : Type) (lexicalCast : Str → Option T) (key : Str) (dflt : T) (a : Accessor T),
        Faithful lexicalCast r s key dflt a) ∧
      ∀ lexicalCast : Str → Option UInt64, LengthRead lexicalCast s := by
  intro hall
  let s : HttpResponse MapType := ⟨⟨[(ascii "content-length", ascii "2")]⟩⟩
  have hread := (hall (HttpRequest.new 0x11 true) s).2 decimal
  rw [LengthRead] at hread
  revert hread
  decide +kernel

end Http

end Agent
