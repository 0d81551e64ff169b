import GServer.Http
import GServer.Library.Runs

/-!
# The stores as case-insensitive finite maps

`std::map` is a map for the keys that its comparator orders weakly.
`CaseInsensitiveLess` is true both ways round for any two keys that differ, so
it orders a set of keys only if they are all equal ignoring case.  A store is
compared, call by call, with the history of the calls made on it.
-/

namespace Agent

open OrderedMaps Runs

namespace Http

/-! ## The contract -/

/-- What `CaseInsensitiveLess` owes `std::map` on these keys: a strict weak ordering in
which two keys are equivalent exactly when they are equal ignoring case. -/
def OrdersIgnoringCase (keys : List Str) : Prop :=
  StrictWeak caseInsensitiveLess keys ∧
  ∀ a ∈ keys, ∀ b ∈ keys, equivalent caseInsensitiveLess a b = true ↔ EqualIgnoringCase a b

/-- The keys differ at most in case. -/
def SameKeys (keys : List Str) : Prop :=
  ∀ a ∈ keys, ∀ b ∈ keys, EqualIgnoringCase a b

/-- The comparator does not see which text comes first. -/
theorem caseInsensitiveLess_comm (a b : Str) :
    caseInsensitiveLess a b = caseInsensitiveLess b a := by
  rw [Bool.eq_iff_iff, caseInsensitiveLess_iff, caseInsensitiveLess_iff]
  exact not_congr ⟨EqualIgnoringCase.symm, EqualIgnoringCase.symm⟩

/-- Equal texts are not less. -/
theorem caseInsensitiveLess_of_equal {a b : Str} (h : EqualIgnoringCase a b) :
    caseInsensitiveLess a b = false := by
  rw [← Bool.not_eq_true, caseInsensitiveLess_iff, Decidable.not_not]
  exact h.cStr

/-- Keys are equivalent when they are equal up to case and up to a zero. -/
theorem equivalent_iff (a b : Str) :
    equivalent caseInsensitiveLess a b = true ↔ EqualIgnoringCase (cStr a) (cStr b) := by
  rw [equivalent, caseInsensitiveLess_comm b a, Bool.and_self, Bool.not_eq_true',
    ← Bool.not_eq_true, caseInsensitiveLess_iff, Decidable.not_not]

/-- A set of keys is ordered weakly exactly when the comparator holds of none of them. -/
theorem strictWeak_iff (keys : List Str) :
    StrictWeak caseInsensitiveLess keys ↔
      ∀ a ∈ keys, ∀ b ∈ keys, caseInsensitiveLess a b = false := by
  constructor
  · rintro ⟨-, hasymm, -⟩ a ha b hb
    cases hless : caseInsensitiveLess a b with
    | false => rfl
    | true =>
        have hback := hasymm a ha b hb hless
        rw [caseInsensitiveLess_comm, hless] at hback
        cases hback
  · intro hfalse
    refine ⟨fun a ha => hfalse a ha a ha, fun a ha b hb _ => hfalse b hb a ha, ?_, ?_⟩
    · intro a ha b hb _ _ hless _
      rw [hfalse a ha b hb] at hless
      cases hless
    · intro a _ b _ c _ hab hbc
      rw [equivalent_iff] at hab hbc ⊢
      exact hab.trans hbc

/-- **The ordering law.**  The comparator keeps its contract on a set of keys exactly
when the keys differ at most in case. -/
theorem ordersIgnoringCase_iff (keys : List Str) :
    OrdersIgnoringCase keys ↔ SameKeys keys := by
  constructor
  · rintro ⟨hweak, hequiv⟩ a ha b hb
    rw [strictWeak_iff] at hweak
    rw [← hequiv a ha b hb, equivalent, hweak a ha b hb, hweak b hb a ha]
    rfl
  · intro hsame
    refine ⟨?_, fun a ha b hb => ?_⟩
    · rw [strictWeak_iff]
      exact fun a ha b hb => caseInsensitiveLess_of_equal (hsame a ha b hb)
    · rw [equivalent_iff]
      exact iff_of_true (hsame a ha b hb).cStr (hsame a ha b hb)

/-! ## One store -/

/-- The value stored under `key` ignoring case, read off the entries. -/
def valueOf (m : MapType) (key : Str) : Option Str :=
  m.valueWhere fun a => decide (EqualIgnoringCase a key)

/-- Every key of the store equals `key` ignoring case. -/
def OnlyKey (m : MapType) (key : Str) : Prop :=
  ∀ a ∈ m.keys, EqualIgnoringCase a key

/-- With one key the comparator is an order. -/
theorem OnlyKey.strictWeak {m : MapType} {key : Str} (h : OnlyKey m key) :
    StrictWeak caseInsensitiveLess (key :: m.keys) := by
  refine ((ordersIgnoringCase_iff _).mpr ?_).1
  have hkey : ∀ a ∈ key :: m.keys, EqualIgnoringCase a key := by
    intro a ha
    rcases List.mem_cons.mp ha with rfl | ha
    · rfl
    · exact h a ha
  exact fun a ha b hb => (hkey a ha).trans (hkey b hb).symm

/-- Under one key the classes of the comparator are those of the keys. -/
theorem OnlyKey.keepsClass {m : MapType} {key : Str} (h : OnlyKey m key) (k : Str) :
    OrderedMap.KeepsClass caseInsensitiveLess (fun a => decide (EqualIgnoringCase a k)) key
      (m.entries.map Prod.fst) := by
  intro a ha
  have hakey := h a ha
  refine ⟨fun _ => ?_, fun _ _ => ?_⟩
  · rw [decide_eq_decide]
    exact ⟨hakey.symm.trans, hakey.trans⟩
  · rw [equivalent_iff]
    exact hakey.cStr

/-- The store after an assignment, as a function of the key. -/
def assigned (f : Str → Option Str) (key val : Str) (k : Str) : Option Str :=
  if EqualIgnoringCase key k then some val else f k

/-- The store after an erasure, as a function of the key. -/
def erased (f : Str → Option Str) (key : Str) (k : Str) : Option Str :=
  if EqualIgnoringCase key k then none else f k

section OneStore

variable {m : MapType} {key : Str}

/-- With one key a header is found when it is stored. -/
theorem find_spec (h : OnlyKey m key) : KeyedStore.find m key = some (valueOf m key) := by
  change OrderedMap.find caseInsensitiveLess m key = _
  rw [OrderedMap.find, if_pos h.strictWeak, valueOf]
  refine congrArg some (OrderedMap.valueWhere_congr fun a ha => ?_)
  rw [Bool.eq_iff_iff, equivalent_iff, decide_eq_true_eq]
  exact iff_of_true (h a ha).cStr (h a ha)

/-- With one key a header is stored without touching the others. -/
theorem assign_spec (h : OnlyKey m key) (val : Str) :
    ∃ m', KeyedStore.assign m key val = some m' ∧
      valueOf m' = assigned (valueOf m) key val := by
  refine ⟨_, if_pos h.strictWeak, ?_⟩
  funext k
  refine (OrderedMap.valueWhere_assignEntry (h.keepsClass k)).trans ?_
  simp only [decide_eq_true_eq, assigned]
  rfl

/-- With one key a header is erased alone. -/
theorem erase_spec (h : OnlyKey m key) :
    ∃ m', KeyedStore.erase m key = some m' ∧ valueOf m' = erased (valueOf m) key := by
  refine ⟨_, if_pos h.strictWeak, ?_⟩
  funext k
  refine (OrderedMap.valueWhere_filter (h.keepsClass k)).trans ?_
  simp only [decide_eq_true_eq, erased]
  rfl

end OneStore

/-! ## One store with another key -/

section OtherKey

variable {a w key : Str}

/-- Where the contract holds for two keys, the comparator is false both ways round. -/
theorem less_eq_false (h : StrictWeak caseInsensitiveLess [key, a]) :
    caseInsensitiveLess a key = false ∧ caseInsensitiveLess key a = false := by
  rw [strictWeak_iff] at h
  exact ⟨h a (by simp) key (by simp), h key (by simp) a (by simp)⟩

theorem valueOf_single (k : Str) :
    valueOf ⟨[(a, w)]⟩ k = if EqualIgnoringCase a k then some w else none := by
  refine (OrderedMap.valueWhere_cons _ _ _).trans ?_
  simp only [decide_eq_true_eq]
  rfl

/-- The value of the other key is found. -/
theorem find_other {found : Option Str}
    (hrun : KeyedStore.find (⟨[(a, w)]⟩ : MapType) key = some found) : found = some w := by
  obtain ⟨hweak, heq⟩ := Option.ite_none_right_eq_some.mp hrun
  obtain ⟨hlt, hgt⟩ := less_eq_false hweak
  rw [← Option.some.inj heq, OrderedMap.valueWhere_cons, equivalent, hlt, hgt]
  rfl

variable (hne : ¬ EqualIgnoringCase a key)
include hne

/-- The value goes to the wrong key, if anywhere. -/
theorem assign_other {val : Str} {m' : MapType}
    (hrun : KeyedStore.assign (⟨[(a, w)]⟩ : MapType) key val = some m') :
    valueOf m' ≠ assigned (valueOf ⟨[(a, w)]⟩) key val := by
  obtain ⟨hweak, heq⟩ := Option.ite_none_right_eq_some.mp hrun
  obtain ⟨hlt, hgt⟩ := less_eq_false hweak
  obtain rfl : (⟨[(a, val)]⟩ : MapType) = m' := by
    rw [← Option.some.inj heq]
    simp [OrderedMap.assignEntry, hlt, hgt]
  intro h
  have hkey := congrFun h key
  rw [valueOf_single, if_neg hne, assigned, if_pos (.refl key)] at hkey
  cases hkey

/-- The entry of the other key goes. -/
theorem erase_other {m' : MapType}
    (hrun : KeyedStore.erase (⟨[(a, w)]⟩ : MapType) key = some m') :
    valueOf m' ≠ erased (valueOf ⟨[(a, w)]⟩) key := by
  obtain ⟨hweak, heq⟩ := Option.ite_none_right_eq_some.mp hrun
  obtain ⟨hlt, hgt⟩ := less_eq_false hweak
  obtain rfl : (⟨[]⟩ : MapType) = m' := by
    rw [← Option.some.inj heq]
    simp [equivalent, hlt, hgt]
  intro h
  have hkey := congrFun h a
  rw [erased, if_neg (fun h' => hne h'.symm), valueOf_single, if_pos (.refl a)] at hkey
  cases hkey

end OtherKey

/-! ## Calls and their history -/

/-- The calls on a store. -/
inductive StoreCall
  | set (key val : Str)
  | del (key : Str)
  | get (key : Str)

/-- The key of a call. -/
def StoreCall.key : StoreCall → Str
  | .set key _ => key
  | .del key => key
  | .get key => key

/-- The value of the last `set` whose key equals `key` ignoring case and that was not
deleted afterwards; the last call comes first. -/
def lastSet : List StoreCall → Str → Option Str
  | [] => fun _ => none
  | .set k v :: earlier => assigned (lastSet earlier) k v
  | .del k :: earlier => erased (lastSet earlier) k
  | .get _ :: earlier => lastSet earlier

/-- The stores of a message and the member functions that work on them; each is the
store's own operation. -/
structure Stores (R W : Type) [DecidableEq W] where
  store : R → W → MapType
  put : R → W → MapType → R
  set : R → W → Str → Str → Option R
  del : R → W → Str → Option R
  get : R → W → Str → Str → Option Str
  store_put : ∀ r w m w', store (put r w m) w' = if w' = w then m else store r w'
  set_eq : ∀ r w key val,
    set r w key val = (KeyedStore.assign (store r w) key val).map (put r w)
  del_eq : ∀ r w key, del r w key = (KeyedStore.erase (store r w) key).map (put r w)
  get_eq : ∀ r w key dflt,
    get r w key dflt = (KeyedStore.find (store r w) key).map fun found => found.getD dflt

/-- The stores of a request. -/
inductive RequestStore
  | headers | params | cookies
deriving DecidableEq

/-- `HttpRequest` and its member functions. -/
def requestStores : Stores (HttpRequest MapType) RequestStore where
  store r w := match w with
    | .headers => r.headers
    | .params => r.params
    | .cookies => r.cookies
  put r w m := match w with
    | .headers => { r with headers := m }
    | .params => { r with params := m }
    | .cookies => { r with cookies := m }
  set r w key val := match w with
    | .headers => r.setHeader key val
    | .params => r.setParam key val
    | .cookies => r.setCookie key val
  del r w key := match w with
    | .headers => r.delHeader key
    | .params => r.delParam key
    | .cookies => r.delCookie key
  get r w key dflt := match w with
    | .headers => r.getHeader key dflt
    | .params => r.getParam key dflt
    | .cookies => r.getCookie key dflt
  store_put r w m w' := by cases w <;> cases w' <;> rfl
  set_eq r w key val := by cases w <;> rfl
  del_eq r w key := by cases w <;> rfl
  get_eq r w key dflt := by cases w <;> rfl

/-- `HttpResponse` and its member functions. -/
def responseStores : Stores (HttpResponse MapType) Unit where
  store r _ := r.headers
  put r _ m := { r with headers := m }
  set r _ key val := r.setHeader key val
  del r _ key := r.delHeader key
  get r _ key dflt := r.getHeader key dflt
  store_put _ _ _ _ := rfl
  set_eq _ _ _ _ := rfl
  del_eq _ _ _ := rfl
  get_eq _ _ _ _ := rfl

namespace Stores

variable {R W : Type} [DecidableEq W] (S : Stores R W)

/-- A message and, for each store, the calls made on it, the last first. -/
structure Session (R W : Type) where
  message : R
  history : W → List StoreCall

/-- The histories after a call. -/
def record (history : W → List StoreCall) (w : W) (c : StoreCall) : W → List StoreCall :=
  fun w' => if w' = w then c :: history w' else history w'

/-- The message that a call leaves, if it has a defined result. -/
def after (r : R) (w : W) : StoreCall → Option R
  | .set key val => S.set r w key val
  | .del key => S.del r w key
  | .get _ => some r

/-- One call on one of the stores. -/
def Step (s : Session R W) (c : W × StoreCall) (s' : Session R W) : Prop :=
  S.after s.message c.1 c.2 = some s'.message ∧ s'.history = record s.history c.1 c.2

/-- What a call on case-insensitive finite maps does: afterwards every store has, for
every key, the last value set; a `get` returns that value, or its default. -/
def AsMap (s : Session R W) (c : W × StoreCall) : Prop :=
  (∃ r', S.after s.message c.1 c.2 = some r' ∧
    ∀ w, valueOf (S.store r' w) = lastSet (record s.history c.1 c.2 w)) ∧
  ∀ key, c.2 = .get key → ∀ dflt,
    S.get s.message c.1 key dflt = some ((lastSet (s.history c.1) key).getD dflt)

/-- The key of the call equals, ignoring case, every key that the store holds. -/
def SoleKey (s : Session R W) (c : W × StoreCall) : Prop :=
  OnlyKey (S.store s.message c.1) c.2.key

/-- The stores hold what was last set, and at most one entry. -/
structure Inv (s : Session R W) : Prop where
  single : ∀ w, (S.store s.message w).entries.length ≤ 1
  value : ∀ w, valueOf (S.store s.message w) = lastSet (s.history w)

/-- An empty store has no other key. -/
theorem onlyKey_of_eq_nil {m : MapType} (h : m.entries = []) (key : Str) : OnlyKey m key := by
  intro a ha
  rw [OrderedMap.keys, h] at ha
  cases ha

/-- A store with at most one entry holds only `key` unless that entry has another. -/
theorem single_cases {m : MapType} (h : m.entries.length ≤ 1) (key : Str) :
    OnlyKey m key ∨ ∃ a w, m = ⟨[(a, w)]⟩ ∧ ¬ EqualIgnoringCase a key := by
  obtain ⟨es⟩ := m
  match es, h with
  | [], _ => exact Or.inl (onlyKey_of_eq_nil rfl key)
  | [(a, w)], _ =>
      by_cases heq : EqualIgnoringCase a key
      · refine Or.inl fun b hb => ?_
        obtain rfl : b = a := List.mem_singleton.mp hb
        exact heq
      · exact Or.inr ⟨a, w, rfl, heq⟩

variable {S}

/-- What the stores hold after a call on one of them. -/
theorem value_put {s : Session R W} (h : S.Inv s) {w : W} {c : StoreCall} {m : MapType}
    (hm : valueOf m = lastSet (c :: s.history w)) (w' : W) :
    valueOf (S.store (S.put s.message w m) w') = lastSet (record s.history w c w') := by
  rw [S.store_put, record]
  by_cases heq : w' = w
  · subst heq
    rw [if_pos rfl, if_pos rfl, hm]
  · rw [if_neg heq, if_neg heq, h.value w']

/-- **One call.**  It does what finite maps do exactly when its key is the only one. -/
theorem asMap_iff_soleKey {s : Session R W} (h : S.Inv s) (c : W × StoreCall) :
    S.AsMap s c ↔ S.SoleKey s c := by
  obtain ⟨w, c⟩ := c
  have hvalue := h.value w
  constructor
  · rintro ⟨⟨r', hafter, hstores⟩, hget⟩
    rcases single_cases (h.single w) c.key with honly | ⟨a, v, hm, hne⟩
    · exact honly
    exfalso
    have hcell := hstores w
    rw [record, if_pos rfl] at hcell
    cases c with
    | set key val =>
        rw [after, S.set_eq, hm] at hafter
        obtain ⟨m', hrun, rfl⟩ := Option.map_eq_some_iff.mp hafter
        rw [S.store_put, if_pos rfl] at hcell
        refine assign_other hne hrun ?_
        rw [hcell, lastSet, ← hvalue, hm]
        rfl
    | del key =>
        rw [after, S.del_eq, hm] at hafter
        obtain ⟨m', hrun, rfl⟩ := Option.map_eq_some_iff.mp hafter
        rw [S.store_put, if_pos rfl] at hcell
        refine erase_other hne hrun ?_
        rw [hcell, lastSet, ← hvalue, hm]
        rfl
    | get key =>
        -- no default but the stored value itself would be right
        have hne : ¬ EqualIgnoringCase a key := hne
        have hdflt := hget key rfl (0 :: v)
        rw [S.get_eq, hm, ← hvalue, hm, valueOf_single, if_neg hne] at hdflt
        obtain ⟨found, hrun, hfound⟩ := Option.map_eq_some_iff.mp hdflt
        rw [find_other hrun] at hfound
        exact List.cons_ne_self 0 v hfound.symm
  · intro honly
    cases c with
    | set key val =>
        have honly : OnlyKey (S.store s.message w) key := honly
        obtain ⟨m', hrun, hm⟩ := assign_spec honly val
        refine ⟨⟨S.put s.message w m', ?_, ?_⟩, nofun⟩
        · dsimp only [after]
          rw [S.set_eq, hrun]
          rfl
        · refine value_put h ?_
          rw [hm, hvalue]
          rfl
    | del key =>
        have honly : OnlyKey (S.store s.message w) key := honly
        obtain ⟨m', hrun, hm⟩ := erase_spec honly
        refine ⟨⟨S.put s.message w m', ?_, ?_⟩, nofun⟩
        · dsimp only [after]
          rw [S.del_eq, hrun]
          rfl
        · refine value_put h ?_
          rw [hm, hvalue]
          rfl
    | get key =>
        have honly : OnlyKey (S.store s.message w) key := honly
        refine ⟨⟨s.message, rfl, fun w' => ?_⟩, ?_⟩
        · rw [h.value w', record]
          split
          · rfl
          · rfl
        · rintro _ ⟨⟩ dflt
          dsimp only
          rw [S.get_eq, find_spec honly, hvalue]
          rfl

/-- Under one key a store keeps at most one entry. -/
theorem single_after {m m' : MapType} {key : Str} (honly : OnlyKey m key)
    (hsingle : m.entries.length ≤ 1) :
    (∀ val, KeyedStore.assign m key val = some m' → m'.entries.length ≤ 1) ∧
    (KeyedStore.erase m key = some m' → m'.entries.length ≤ 1) := by
  obtain ⟨es⟩ := m
  refine ⟨fun val hrun => ?_, fun hrun => ?_⟩
  · obtain ⟨hweak, heq⟩ := Option.ite_none_right_eq_some.mp hrun
    rw [← Option.some.inj heq]
    match es, hsingle with
    | [], _ => exact Nat.le_refl 1
    | [(a, v)], _ =>
        obtain ⟨hlt, hgt⟩ := less_eq_false hweak
        simp [OrderedMap.assignEntry, hlt, hgt]
  · obtain ⟨-, heq⟩ := Option.ite_none_right_eq_some.mp hrun
    rw [← Option.some.inj heq]
    exact Nat.le_trans (List.length_filter_le _ _) hsingle

/-- A call with the only key keeps the invariant. -/
theorem inv_step {s s' : Session R W} {c : W × StoreCall} (h : S.Inv s)
    (hsole : S.SoleKey s c) (hstep : S.Step s c s') : S.Inv s' := by
  obtain ⟨w, c⟩ := c
  obtain ⟨hafter, hhistory⟩ := hstep
  obtain ⟨⟨r', hafter', hstores⟩, -⟩ := (asMap_iff_soleKey h (w, c)).mpr hsole
  obtain rfl : s'.message = r' := Option.some.inj (hafter.symm.trans hafter')
  refine ⟨fun w' => ?_, fun w' => by rw [hhistory]; exact hstores w'⟩
  have hput : ∀ m, m.entries.length ≤ 1 →
      (S.store (S.put s.message w m) w').entries.length ≤ 1 := by
    intro m hm
    rw [S.store_put]
    split
    · exact hm
    · exact h.single w'
  cases c with
  | set key val =>
      rw [after, S.set_eq] at hafter
      obtain ⟨m', hrun, hmsg⟩ := Option.map_eq_some_iff.mp hafter
      rw [← hmsg]
      exact hput m' ((single_after hsole (h.single w)).1 val hrun)
  | del key =>
      rw [after, S.del_eq] at hafter
      obtain ⟨m', hrun, hmsg⟩ := Option.map_eq_some_iff.mp hafter
      rw [← hmsg]
      exact hput m' ((single_after hsole (h.single w)).2 hrun)
  | get key =>
      rw [← Option.some.inj hafter]
      exact h.single w'

/-- **Runs.**  From empty stores, every call of a sequence does what finite maps do
exactly when the key of every call is the only one that its store holds. -/
theorem asMap_along_iff {r : R} (hempty : ∀ w, S.store r w = OrderedMap.empty)
    (calls : List (W × StoreCall)) :
    Along S.Step S.AsMap ⟨r, fun _ => []⟩ calls ↔
      Along S.Step S.SoleKey ⟨r, fun _ => []⟩ calls := by
  refine along_iff_of_invariant (I := S.Inv) (V := fun _ => True)
    (fun s c h _ => asMap_iff_soleKey h c) (fun s c s' h _ hsole hstep => inv_step h hsole hstep)
    calls _ ⟨fun w => ?_, fun w => ?_⟩ (fun _ _ => trivial)
  · rw [hempty w]
    exact Nat.zero_le 1
  · rw [hempty w]
    rfl

end Stores

/-- **The header stores.**  The comparator keeps its contract with `std::map` exactly
on sets of keys that differ at most in case.  The stores of a new request and of a
new response are case-insensitive finite maps along a sequence of calls exactly
when each call's key equals, ignoring case, every key that its store holds. -/
theorem stores_asMap_iff_soleKey (version : UInt8) (close : Bool) :
    (∀ keys, OrdersIgnoringCase keys ↔ SameKeys keys) ∧
    (∀ calls, Along requestStores.Step requestStores.AsMap
        ⟨HttpRequest.new version close, fun _ => []⟩ calls ↔
      Along requestStores.Step requestStores.SoleKey
        ⟨HttpRequest.new version close, fun _ => []⟩ calls) ∧
    (∀ calls, Along responseStores.Step responseStores.AsMap
        ⟨HttpResponse.new, fun _ => []⟩ calls ↔
      Along responseStores.Step responseStores.SoleKey
        ⟨HttpResponse.new, fun _ => []⟩ calls) :=
  ⟨ordersIgnoringCase_iff,
    Stores.asMap_along_iff fun w => by cases w <;> rfl,
    Stores.asMap_along_iff fun _ => rfl⟩

/-- Three headers `a`, `b` and `c` are set: the comparator says that `a` is less than
`b` and `b` less than `a`, and the second call already has no defined result. -/
theorem three_headers_break_contract :
    caseInsensitiveLess [97] [98] = true ∧ caseInsensitiveLess [98] [97] = true ∧
    ¬ Along requestStores.Step requestStores.AsMap
      ⟨HttpRequest.new 0x11 true, fun _ => []⟩
      [(.headers, .set [97] [49]), (.headers, .set [98] [50]), (.headers, .set [99] [51]),
        (.headers, .get [97])] := by
  refine ⟨by decide, by decide, ?_⟩
  rintro ⟨-, hrest⟩
  obtain ⟨⟨⟨r', hafter, -⟩, -⟩, -⟩ := hrest ⟨_, _⟩ ⟨rfl, rfl⟩
  exact Option.some_ne_none r' (hafter.symm.trans rfl)

end Http

end Agent
