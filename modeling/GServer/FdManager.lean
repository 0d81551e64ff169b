import GServer.Library.Runs
import Mathlib

/-!
# The descriptor table

`FdManager` keeps one `FdCtx` for each descriptor in the vector `m_datas`,
indexed by the descriptor.  The file models `get` and `del` with the vector as
they leave it, reads a finite map from descriptors to contexts off the vector
(`FdManager.stored`), and compares each call with what a finite map does.

The comparison fails in three ways.  `get(fd, true)` resizes the vector to
`fd * 1.5` from the descriptor it looks up, so it drops the contexts of larger
descriptors, and for the descriptors 0 and 1 it leaves no slot for its own
context.  `get(fd, false)` creates a context when its slot exists and is empty.
`FdManager.finiteMap_iff_keepsOthers` says that these are all the ways.
-/

namespace Agent

open Runs

/-- What `fstat` reports about a descriptor. -/
inductive FdStat
  | error
  | socket
  | other
  deriving DecidableEq, Repr

/-- The context of one descriptor. -/
structure FdCtx where
  isInit : Bool
  isSocket : Bool
  sysNonblock : Bool
  userNonblock : Bool
  isClosed : Bool
  fd : Int
  recvTimeout : Nat
  sendTimeout : Nat
  deriving DecidableEq, Repr

/-- `FdCtx::init`: fill the flags from what `fstat` reports. -/
def FdCtx.init (ctx : FdCtx) (stat : FdStat) : FdCtx :=
  if ctx.isInit then ctx
  else
    { ctx with
      isInit := stat != .error
      isSocket := stat == .socket
      sysNonblock := stat == .socket
      userNonblock := false
      isClosed := false }

/-- `FdCtx::FdCtx`: both timeouts start at the unlimited value `(uint64_t)-1`. -/
def FdCtx.new (fd : Int) (stat : FdStat) : FdCtx :=
  FdCtx.init
    { isInit := false, isSocket := false, sysNonblock := false,
      userNonblock := false, isClosed := false, fd := fd,
      recvTimeout := 2 ^ 64 - 1, sendTimeout := 2 ^ 64 - 1 } stat

/-- A pointer to a context: its position among the contexts ever allocated. -/
abbrev FdCtxPtr := Nat

/-- The manager: the vector `m_datas` and the contexts ever allocated. -/
structure FdManager where
  datas : List (Option FdCtxPtr)
  contexts : List FdCtx
  deriving DecidableEq, Repr

attribute [ext] FdManager

namespace FdManager

/-- `FdManager::FdManager`. -/
def new : FdManager :=
  { datas := List.replicate 64 none, contexts := [] }

/-- `std::vector::resize` on the slots: shorter vectors lose their tail, longer
ones are filled with null. -/
def resize (datas : List (Option FdCtxPtr)) (size : Nat) :
    List (Option FdCtxPtr) :=
  datas.take size ++ List.replicate (size - datas.length) none

/-- `(int)m_datas.size()`. -/
def intSize (m : FdManager) : Int :=
  Int.bmod m.datas.length (2 ^ 32)

/-- The access `m_datas[fd]`; `none` when it is out of bounds. -/
def slot? (datas : List (Option FdCtxPtr)) (fd : Int) :
    Option (Option FdCtxPtr) :=
  if 0 ≤ fd then datas[fd.toNat]? else none

/-- How the read-locked half of `get` ends. -/
inductive Found
  | null
  | ctx (p : FdCtxPtr)
  | create
  deriving DecidableEq, Repr

/-- The read-locked half of `FdManager::get`. -/
def find (m : FdManager) (fd : Int) (autoCreate : Bool) : Option Found :=
  if fd = -1 then some .null
  else if m.intSize ≤ fd then
    if autoCreate then some .create else some .null
  else
    match slot? m.datas fd with
    | none => none
    | some (some p) => some (.ctx p)
    | some none => some .create

/-- The write-locked half of `FdManager::get`. -/
def create (m : FdManager) (fd : Int) (autoCreate : Bool) (stat : FdStat) :
    Option (Option FdCtxPtr × FdManager) :=
  let p := m.contexts.length
  let datas := if autoCreate then resize m.datas (fd * 3 / 2).toNat else m.datas
  match slot? datas fd with
  | none => none
  | some _ =>
      some (some p,
        { datas := datas.set fd.toNat (some p)
          contexts := m.contexts ++ [FdCtx.new fd stat] })

/-- `FdManager::get`; `none` is an access to `m_datas` out of bounds. -/
def get (m : FdManager) (fd : Int) (autoCreate : Bool) (stat : FdStat) :
    Option (Option FdCtxPtr × FdManager) :=
  match m.find fd autoCreate with
  | none => none
  | some .null => some (none, m)
  | some (.ctx p) => some (some p, m)
  | some .create => m.create fd autoCreate stat

/-- `FdManager::del`; `none` is an access to `m_datas` out of bounds. -/
def del (m : FdManager) (fd : Int) : Option FdManager :=
  if m.intSize ≤ fd then some m
  else
    match slot? m.datas fd with
    | none => none
    | some _ => some { m with datas := m.datas.set fd.toNat none }

/-- A call on the manager; `stat` is what `fstat` would report at that time. -/
inductive Call
  | get (fd : Int) (autoCreate : Bool) (stat : FdStat)
  | del (fd : Int)
  deriving DecidableEq, Repr

/-- The descriptor a call is about. -/
def Call.fd : Call → Int
  | .get fd _ _ => fd
  | .del fd => fd

/-- One call: the pointer it returns and the manager it leaves. -/
def exec (m : FdManager) : Call → Option (Option FdCtxPtr × FdManager)
  | .get fd autoCreate stat => m.get fd autoCreate stat
  | .del fd => (m.del fd).map (fun m' => (none, m'))

/-- The steps of a run of calls. -/
def Step (m : FdManager) (call : Call) (m' : FdManager) : Prop :=
  ∃ r, m.exec call = some (r, m')

/-- The finite map the vector stands for. -/
def stored (m : FdManager) (fd : Int) : Option FdCtxPtr :=
  (slot? m.datas fd).join

/-! ## What a finite map does, and when the calls do it -/

/-- The call does to `stored` what it would do to a finite map: a lookup
changes nothing, a lookup that creates stores a new context under its own
descriptor when there is none, a deletion removes its own descriptor. -/
def FiniteMapCall (m : FdManager) : Call → Prop
  | .get fd false stat => m.get fd false stat = some (m.stored fd, m)
  | .get fd true stat =>
      match m.stored fd with
      | some p => m.get fd true stat = some (some p, m)
      | none => ∃ p m', m.get fd true stat = some (some p, m') ∧
          m'.contexts = m.contexts ++ [FdCtx.new fd stat] ∧
          m'.contexts[p]? = some (FdCtx.new fd stat) ∧
          m.contexts[p]? = none ∧
          m'.stored = Function.update m.stored fd (some p)
  | .del fd => ∃ m', m.del fd = some m' ∧
      m'.contexts = m.contexts ∧
      m'.stored = Function.update m.stored fd none

/-- The calls that stay clear of the resize and of the missing check: a lookup
without creation finds a context below `(int)size` or nothing beyond it; a
creating lookup finds its context, or makes one for a descriptor of at least 2
while every other context lies below the new size; a deletion can see the
context it deletes. -/
def KeepsOthers (m : FdManager) : Call → Prop
  | .get fd false _ => m.stored fd ≠ none ↔ fd < m.intSize
  | .get fd true _ =>
      if m.stored fd = none then
        2 ≤ fd ∧ ∀ other, other ≠ fd → m.stored other ≠ none → other < fd * 3 / 2
      else fd < m.intSize
  | .del fd => m.stored fd ≠ none → fd < m.intSize

theorem intSize_le (m : FdManager) : m.intSize ≤ m.datas.length := by
  unfold intSize Int.bmod
  dsimp only
  split <;> omega

/-- Below `(int)size` every access is in bounds. -/
theorem slot?_of_lt_intSize {m : FdManager} {fd : Int} (h0 : 0 ≤ fd)
    (hlt : fd < m.intSize) : slot? m.datas fd = some (m.stored fd) := by
  have hlen : fd.toNat < m.datas.length := by
    have := m.intSize_le
    omega
  simp [stored, slot?, h0, hlen]

/-- Reading a slot of the written vector. -/
theorem slot?_set {datas : List (Option FdCtxPtr)} {fd other : Int}
    {v : Option FdCtxPtr} (h0 : 0 ≤ fd) (hfd : slot? datas fd ≠ none) :
    (slot? (datas.set fd.toNat v) other).join =
      Function.update (fun i => (slot? datas i).join) fd v other := by
  have hlen : fd.toNat < datas.length := by
    by_contra hge
    exact hfd (by simp [slot?, h0, List.getElem?_eq_none (Nat.le_of_not_lt hge)])
  by_cases heq : other = fd
  · subst heq
    simp [slot?, h0, hlen]
  · rw [Function.update_of_ne heq]
    by_cases ho : 0 ≤ other
    · have hne : fd.toNat ≠ other.toNat := by omega
      simp [slot?, ho, List.getElem?_set_ne hne]
    · simp [slot?, ho]

/-- Reading a slot of the resized vector: what lay below the new size stays,
the rest is null. -/
theorem slot?_resize (datas : List (Option FdCtxPtr)) (size : Nat) (fd : Int) :
    (slot? (resize datas size) fd).join =
      if fd < size then (slot? datas fd).join else none := by
  by_cases h0 : 0 ≤ fd
  · simp only [slot?, h0, if_true, resize, List.getElem?_append, List.length_take,
      List.getElem?_take, List.getElem?_replicate]
    grind
  · simp [slot?, h0]

/-- A slot of the resized vector exists exactly below the new size. -/
theorem slot?_resize_ne_none (datas : List (Option FdCtxPtr)) (size : Nat)
    {fd : Int} (h0 : 0 ≤ fd) :
    slot? (resize datas size) fd ≠ none ↔ fd < size := by
  have hlen : (resize datas size).length = size := by
    simp [resize]
    omega
  simp only [slot?, h0, if_true, ne_eq, List.getElem?_eq_none_iff, hlen]
  omega

/-- The write-locked half with `auto_create`: it needs a slot in the resized
vector, and keeps what lay below the new size. -/
theorem create_true (m : FdManager) {fd : Int} (stat : FdStat) (h0 : 0 ≤ fd) :
    (2 ≤ fd → ∃ m', m.create fd true stat = some (some m.contexts.length, m') ∧
      m'.contexts = m.contexts ++ [FdCtx.new fd stat] ∧
      ∀ other, m'.stored other = Function.update
        (fun i => if i < fd * 3 / 2 then m.stored i else none)
        fd (some m.contexts.length) other) ∧
    (fd < 2 → m.create fd true stat = none) := by
  have hslot := slot?_resize_ne_none m.datas (fd * 3 / 2).toNat h0
  constructor
  · intro h2
    have hin : slot? (resize m.datas (fd * 3 / 2).toNat) fd ≠ none :=
      hslot.mpr (by omega)
    obtain ⟨v, hv⟩ := Option.ne_none_iff_exists'.mp hin
    refine ⟨_, by simp [create, hv]; rfl, rfl, ?_⟩
    intro other
    show (slot? ((resize m.datas (fd * 3 / 2).toNat).set fd.toNat _) other).join = _
    rw [slot?_set h0 hin]
    congr 1
    funext i
    rw [slot?_resize]
    have hcast : ((fd * 3 / 2).toNat : Int) = fd * 3 / 2 := by omega
    rw [hcast]
    rfl
  · intro hlt
    have hout : slot? (resize m.datas (fd * 3 / 2).toNat) fd = none := by
      by_contra h
      have := hslot.mp h
      omega
    simp [create, hout]

/-- A lookup without creation behaves like a finite map exactly when its
context, if any, is the only reason to look below `(int)size`. -/
theorem get_false_iff {m : FdManager} {fd : Int} {stat : FdStat} (h0 : 0 ≤ fd) :
    m.get fd false stat = some (m.stored fd, m) ↔
      (m.stored fd ≠ none ↔ fd < m.intSize) := by
  have hne : fd ≠ -1 := by omega
  by_cases hlt : fd < m.intSize
  · have hslot := slot?_of_lt_intSize h0 hlt
    have hnle : ¬ m.intSize ≤ fd := by omega
    cases hst : m.stored fd with
    | none =>
        have hgrows : m.contexts ++ [FdCtx.new fd stat] ≠ m.contexts := by simp
        simp [get, find, hne, hnle, hslot, hst, create, hlt]
    | some p => simp [get, find, hne, hnle, hslot, hst, hlt]
  · have hle : m.intSize ≤ fd := by omega
    cases hst : m.stored fd <;> simp [get, find, hne, hle, hlt]

/-- A creating lookup behaves like a finite map exactly when it can see its
context, or has room for a new one and drops no other. -/
theorem get_true_iff {m : FdManager} {fd : Int} {stat : FdStat} (h0 : 0 ≤ fd) :
    FiniteMapCall m (.get fd true stat) ↔ KeepsOthers m (.get fd true stat) := by
  have hne : fd ≠ -1 := by omega
  obtain ⟨hroom, hfull⟩ := create_true m stat h0
  cases hst : m.stored fd with
  | some p =>
      by_cases hlt : fd < m.intSize
      · have hslot := slot?_of_lt_intSize h0 hlt
        have hnle : ¬ m.intSize ≤ fd := by omega
        simp [FiniteMapCall, KeepsOthers, hst, get, find, hne, hnle, hslot, hlt]
      · have hle : m.intSize ≤ fd := by omega
        have hget : m.get fd true stat = m.create fd true stat := by
          simp [get, find, hne, hle]
        have hdiff : m.create fd true stat ≠ some (some p, m) := by
          by_cases h2 : 2 ≤ fd
          · obtain ⟨m', hm', hctx, _⟩ := hroom h2
            rw [hm']
            intro heq
            obtain ⟨-, rfl⟩ : m.contexts.length = p ∧ m' = m := by simpa using heq
            simpa using congrArg List.length hctx
          · rw [hfull (by omega)]
            simp
        simp [FiniteMapCall, KeepsOthers, hst, hget, hdiff, hlt]
  | none =>
      have hget : m.get fd true stat = m.create fd true stat := by
        by_cases hlt : fd < m.intSize
        · have hslot := slot?_of_lt_intSize h0 hlt
          have hnle : ¬ m.intSize ≤ fd := by omega
          simp [get, find, hne, hnle, hslot, hst]
        · simp [get, find, hne, Int.not_lt.mp hlt]
      simp only [FiniteMapCall, KeepsOthers, hst, hget, if_true]
      constructor
      · rintro ⟨p, m', hm', -, -, hfresh, hupd⟩
        have h2 : 2 ≤ fd := by
          by_contra h
          rw [hfull (by omega)] at hm'
          cases hm'
        obtain ⟨m'', hm'', _, hstored⟩ := hroom h2
        obtain ⟨rfl, rfl⟩ : m.contexts.length = p ∧ m'' = m' := by
          simpa using hm''.symm.trans hm'
        refine ⟨h2, fun other hother hsome => ?_⟩
        by_contra hge
        have := hstored other
        rw [hupd, Function.update_of_ne hother, Function.update_of_ne hother,
          if_neg hge] at this
        exact hsome this
      · rintro ⟨h2, hbelow⟩
        obtain ⟨m', hm', hctx, hstored⟩ := hroom h2
        refine ⟨_, m', hm', hctx, by simp [hctx], by simp, ?_⟩
        funext other
        rw [hstored]
        by_cases hother : other = fd
        · subst hother
          simp
        · rw [Function.update_of_ne hother, Function.update_of_ne hother]
          by_cases hs : m.stored other = none
          · simp [hs]
          · simp [hbelow other hother hs]

/-- A deletion behaves like a finite map exactly when it can see the context
it deletes. -/
theorem del_iff {m : FdManager} {fd : Int} (h0 : 0 ≤ fd) :
    FiniteMapCall m (.del fd) ↔ KeepsOthers m (.del fd) := by
  by_cases hlt : fd < m.intSize
  · have hslot := slot?_of_lt_intSize h0 hlt
    have hnle : ¬ m.intSize ≤ fd := by omega
    have hdel : m.del fd = some { m with datas := m.datas.set fd.toNat none } := by
      simp [del, hnle, hslot]
    simp only [FiniteMapCall, KeepsOthers, hdel, hlt, implies_true, iff_true]
    refine ⟨_, rfl, rfl, ?_⟩
    funext other
    exact slot?_set h0 (by simp [hslot])
  · have hdel : m.del fd = some m := by simp [del, Int.not_lt.mp hlt]
    simp only [FiniteMapCall, KeepsOthers, hdel, hlt]
    constructor
    · rintro ⟨m', hm', -, hupd⟩ hsome
      obtain rfl : m = m' := by simpa using hm'
      exact hsome (by rw [hupd]; simp)
    · intro hnone
      refine ⟨m, rfl, rfl, ?_⟩
      have hst : m.stored fd = none := by
        by_contra h
        exact hnone h
      rw [← hst, Function.update_eq_self]

/-- One call behaves like a finite map exactly when it stays clear of the
resize and of the missing check. -/
theorem finiteMapCall_iff {m : FdManager} {call : Call} (h0 : 0 ≤ call.fd) :
    FiniteMapCall m call ↔ KeepsOthers m call := by
  cases call with
  | get fd autoCreate stat =>
      cases autoCreate with
      | false => exact get_false_iff h0
      | true => exact get_true_iff h0
  | del fd => exact del_iff h0

/-- **The descriptor table as a finite map.**  Along every sequence of calls on
non-negative descriptors from a new manager, every call behaves like the finite
map's exactly when every call stays clear of the resize and of the missing
check. -/
theorem finiteMap_iff_keepsOthers (calls : List Call)
    (h0 : ∀ call ∈ calls, 0 ≤ call.fd) :
    Along Step FiniteMapCall new calls ↔ Along Step KeepsOthers new calls :=
  along_iff_of_invariant (I := fun _ => True) (V := fun call => 0 ≤ call.fd)
    (fun _ _ _ hfd => finiteMapCall_iff hfd) (fun _ _ _ _ _ _ _ => trivial)
    calls new trivial h0

/-- Creating descriptor 4 after descriptor 10 shrinks the vector to six slots
and loses the context of 10. -/
theorem get_drops_larger_descriptor :
    ¬ Along Step FiniteMapCall new [.get 10 true .socket, .get 4 true .socket] := by
  rintro ⟨-, hrest⟩
  let first : FdManager :=
    { datas := List.replicate 10 none ++ [some 0] ++ List.replicate 4 none
      contexts := [FdCtx.new 10 .socket] }
  obtain ⟨hsecond, -⟩ := hrest first ⟨some 0, by decide⟩
  obtain ⟨p, m', hm', -, -, -, hupd⟩ := hsecond
  have hkept : m'.stored 10 = some 0 := by
    rw [hupd, Function.update_of_ne (by decide)]
    decide
  have hlost : (first.get 4 true .socket).map (fun r => r.2.stored 10) = some none := by
    decide
  simp [hm', hkept] at hlost

/-- A context lies within the vector. -/
theorem lt_length_of_stored {m : FdManager} {fd : Int} (h : m.stored fd ≠ none) :
    fd < m.datas.length := by
  by_contra hge
  have hout : slot? m.datas fd = none := by
    unfold slot?
    split
    · exact List.getElem?_eq_none (by omega)
    · rfl
  exact h (by rw [stored, hout]; rfl)

/-- A call leads to one manager. -/
theorem eq_of_step {m m' : FdManager} {call : Call} {r : Option FdCtxPtr × FdManager}
    (h : Step m call m') (hexec : m.exec call = some r) : m' = r.2 := by
  obtain ⟨p, hp⟩ := h
  rw [hexec] at hp
  cases hp
  rfl

/-- Descriptors 7 and 8 are opened, 7 is looked up and closed. -/
theorem finiteMap_iff_keepsOthers_of_accepts :
    Along Step FiniteMapCall new
      [.get 7 true .socket, .get 8 true .socket, .get 7 false .socket, .del 7] := by
  refine (finiteMap_iff_keepsOthers _ (by decide)).mpr ?_
  let first : FdManager :=
    { datas := List.replicate 7 none ++ [some 0] ++ List.replicate 2 none
      contexts := [FdCtx.new 7 .socket] }
  let second : FdManager :=
    { datas := List.replicate 7 none ++ [some 0, some 1] ++ List.replicate 3 none
      contexts := [FdCtx.new 7 .socket, FdCtx.new 8 .socket] }
  have hnothing : ∀ other, new.stored other = none := by
    intro other
    simp only [stored, slot?, new, List.getElem?_replicate]
    split
    · split <;> rfl
    · rfl
  refine ⟨⟨by decide, fun other _ hother => absurd (hnothing other) hother⟩, fun m hm => ?_⟩
  obtain rfl : m = first := eq_of_step (r := (some 0, first)) hm (by decide)
  refine ⟨⟨by decide, fun other _ hother => ?_⟩, fun m hm => ?_⟩
  · exact (lt_length_of_stored hother).trans (by decide)
  obtain rfl : m = second := eq_of_step (r := (some 1, second)) hm (by decide)
  refine ⟨iff_of_true (by decide) (by decide), fun m hm => ?_⟩
  obtain rfl : m = second := eq_of_step (r := (some 0, second)) hm (by decide)
  exact ⟨fun _ => by decide, fun _ _ => trivial⟩

end FdManager

end Agent
