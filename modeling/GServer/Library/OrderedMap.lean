/-!
# Maps with a comparator that may break its contract

A map that is searched with a comparator (such as `std::map`) is specified only
while the comparator is a strict weak ordering of the keys it meets.  Every
operation here checks that first and returns `none` where the contract is
broken: nothing is promised about such a call.  Where the contract holds, the
operations act on the classes of equivalent keys as those of a finite map do.
-/

namespace OrderedMaps

variable {K V : Type}

/-- Neither key is less than the other. -/
def equivalent (less : K → K → Bool) (a b : K) : Bool :=
  !less a b && !less b a

/-- The comparator is a strict weak ordering of these keys. -/
def StrictWeak (less : K → K → Bool) (keys : List K) : Prop :=
  (∀ a ∈ keys, less a a = false) ∧
  (∀ a ∈ keys, ∀ b ∈ keys, less a b = true → less b a = false) ∧
  (∀ a ∈ keys, ∀ b ∈ keys, ∀ c ∈ keys, less a b = true → less b c = true → less a c = true) ∧
  (∀ a ∈ keys, ∀ b ∈ keys, ∀ c ∈ keys,
    equivalent less a b = true → equivalent less b c = true → equivalent less a c = true)

instance (less : K → K → Bool) (keys : List K) : Decidable (StrictWeak less keys) :=
  inferInstanceAs (Decidable (_ ∧ _ ∧ _ ∧ _))

/-- A map: its entries in the order of an iteration. -/
structure OrderedMap (K V : Type) where
  entries : List (K × V)
deriving DecidableEq

namespace OrderedMap

/-- The map without entries. -/
def empty : OrderedMap K V := ⟨[]⟩

/-- The keys that are stored. -/
def keys (m : OrderedMap K V) : List K :=
  m.entries.map Prod.fst

/-- The value of the first entry whose key meets `p`. -/
def valueWhere (p : K → Bool) (m : OrderedMap K V) : Option V :=
  (m.entries.find? fun e => p e.1).map Prod.snd

/-- Put a value under a key: into the entry with an equivalent key, else before the
first entry with a greater key. -/
def assignEntry (less : K → K → Bool) (k : K) (v : V) : List (K × V) → List (K × V)
  | [] => [(k, v)]
  | e :: es =>
      if less e.1 k then e :: assignEntry less k v es
      else if less k e.1 then (k, v) :: e :: es
      else (e.1, v) :: es

/-- Look a key up (`find`): the value of the entry with an equivalent key, if any. -/
def find (less : K → K → Bool) (m : OrderedMap K V) (k : K) : Option (Option V) :=
  if StrictWeak less (k :: m.keys) then some (m.valueWhere fun a => equivalent less a k)
  else none

/-- Assign through the index operator (`m[k] = v`). -/
def assign (less : K → K → Bool) (m : OrderedMap K V) (k : K) (v : V) :
    Option (OrderedMap K V) :=
  if StrictWeak less (k :: m.keys) then some ⟨assignEntry less k v m.entries⟩ else none

/-- Erase the entry with an equivalent key (`erase`). -/
def erase (less : K → K → Bool) (m : OrderedMap K V) (k : K) : Option (OrderedMap K V) :=
  if StrictWeak less (k :: m.keys) then
    some ⟨m.entries.filter fun e => !equivalent less e.1 k⟩
  else none

/-! ## Under the contract -/

section Laws

variable {less : K → K → Bool}

/-- The first entry decides, or the others do. -/
theorem valueWhere_cons (p : K → Bool) (e : K × V) (es : List (K × V)) :
    valueWhere p ⟨e :: es⟩ = if p e.1 then some e.2 else valueWhere p ⟨es⟩ := by
  unfold valueWhere
  rw [List.find?_cons]
  cases p e.1 <;> rfl

/-- Only the keys that are stored matter. -/
theorem valueWhere_congr {p q : K → Bool} {m : OrderedMap K V}
    (h : ∀ a ∈ m.keys, p a = q a) : m.valueWhere p = m.valueWhere q := by
  obtain ⟨es⟩ := m
  induction es with
  | nil => rfl
  | cons e es ih =>
      rw [valueWhere_cons, valueWhere_cons, h e.1 List.mem_cons_self,
        ih fun a ha => h a (List.mem_cons_of_mem e.1 ha)]

/-- `p` selects the class of `j`, as far as the class of `k` and the keys `keys` can
tell: it does not split the class of `k`, and nothing else joins `k` under it. -/
def KeepsClass (less : K → K → Bool) (p : K → Bool) (k : K) (keys : List K) : Prop :=
  ∀ a ∈ keys, (equivalent less a k = true → p a = p k) ∧
    (p k = true → p a = true → equivalent less a k = true)

/-- Fewer keys are kept apart as well. -/
theorem KeepsClass.tail {p : K → Bool} {k a : K} {keys : List K}
    (h : KeepsClass less p k (a :: keys)) : KeepsClass less p k keys :=
  fun b hb => h b (List.mem_cons_of_mem a hb)

/-- An assignment changes the value of its own class and of no other. -/
theorem valueWhere_assignEntry {p : K → Bool} {k : K} {v : V} {es : List (K × V)}
    (h : KeepsClass less p k (es.map Prod.fst)) :
    valueWhere p ⟨assignEntry less k v es⟩ =
      if p k then some v else valueWhere p ⟨es⟩ := by
  induction es with
  | nil => exact valueWhere_cons p (k, v) []
  | cons e es ih =>
      have ih := ih h.tail
      obtain ⟨hclass, honly⟩ := h e.1 List.mem_cons_self
      unfold assignEntry
      by_cases hlt : less e.1 k
      · have hskip : p k = true → p e.1 ≠ true := by
          intro hk hp
          have hequiv := honly hk hp
          simp [equivalent, hlt] at hequiv
        rw [if_pos hlt, valueWhere_cons, ih, valueWhere_cons]
        by_cases hk : p k
        · simp only [if_pos hk, if_neg (hskip hk)]
        · simp only [if_neg hk]
      rw [if_neg hlt]
      by_cases hgt : less k e.1
      · rw [if_pos hgt, valueWhere_cons]
      · have hequiv : equivalent less e.1 k = true := by simp [equivalent, hlt, hgt]
        rw [if_neg hgt, valueWhere_cons, valueWhere_cons, hclass hequiv]
        by_cases hk : p k
        · simp only [if_pos hk]
        · simp only [if_neg hk]

/-- An erasure removes its own class and no other. -/
theorem valueWhere_filter {p : K → Bool} {k : K} {es : List (K × V)}
    (h : KeepsClass less p k (es.map Prod.fst)) :
    valueWhere p ⟨es.filter fun e => !equivalent less e.1 k⟩ =
      if p k then none else valueWhere p ⟨es⟩ := by
  induction es with
  | nil => cases hk : p k <;> rfl
  | cons e es ih =>
      have ih := ih h.tail
      obtain ⟨hclass, honly⟩ := h e.1 List.mem_cons_self
      rw [List.filter_cons]
      by_cases hequiv : equivalent less e.1 k = true
      · rw [if_neg (by simp [hequiv]), ih, valueWhere_cons, hclass hequiv]
        by_cases hk : p k
        · simp only [if_pos hk]
        · simp only [if_neg hk]
      · rw [if_pos (by simp [hequiv]), valueWhere_cons, ih, valueWhere_cons]
        by_cases hk : p k
        · have hp : p e.1 ≠ true := fun hp => hequiv (honly hk hp)
          simp only [if_pos hk, if_neg hp]
        · simp only [if_neg hk]

end Laws

end OrderedMap

end OrderedMaps
