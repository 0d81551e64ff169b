import GServer.Library.Guards
import GServer.Library.OrderedMap
import GServer.Library.Runs
import Mathlib

/-!
# The lock of a configuration variable

Every operation of a `ConfigVar` takes `m_mutex` through a scoped guard.  All but
`fromString` touch nothing else of the lock in a guard's scope.  `fromString` has a
write guard when it calls `setValue`, which begins with a read guard on the same
mutex.  The operations are the same for every lock; here it is one that keeps to its
rules.
-/

namespace Agent

open Guards Runs

namespace Config

/-- What is thrown: a `std::exception` or something else. -/
inductive Thrown
  | exception
  | other
deriving DecidableEq

/-- The comparison and the conversions of the type of a variable. -/
structure Traits (T : Type) where
  eq : T → T → Bool
  fromStr : String → Except Thrown T
  toStr : T → Except Thrown String

/-- `on_change_cb`; a listener returns or throws, and uses no variable. -/
def Listener (T : Type) : Type := T → T → Except Thrown Unit

/-- `ConfigVar`, with the counter `s_fun_id` of its `addListener`. -/
structure ConfigVar (T : Type) where
  val : T
  cbs : List (Nat × Listener T)
  funId : Nat

namespace ConfigVar

variable {T : Type}

/-- An operation on a variable and its lock. -/
abbrev Op (L T α : Type) : Type := Program L (ConfigVar T) Thrown α

/-- `catch(std::exception& e)`. -/
def onException {α : Type} (a : α) : Thrown → Option α
  | .exception => some a
  | .other => none

/-- `ConfigVar::ConfigVar`, before anything has locked the mutex. -/
def new (default : T) : Guarded StrictLock (ConfigVar T) :=
  { data := { val := default, cbs := [], funId := 0 }, lock := .free }

/-- The loop of `setValue` over the listeners. -/
def notify (old v : T) : List (Nat × Listener T) → Except Thrown Unit
  | [] => .ok ()
  | (_, cb) :: cbs =>
      match cb old v with
      | .error e => .error e
      | .ok () => notify old v cbs

section Operations

variable {L : Type} [Lock L]

/-- `ConfigVar::toString`. -/
def toString (traits : Traits T) : Op L T String :=
  .catching (onException "") (.withGuard .read (.access fun var => (traits.toStr var.val, var)))

/-- The scope of the read guard of `setValue`: whether the value is a new one. -/
def compareAndNotify (traits : Traits T) (v : T) : Op L T Bool :=
  .withGuard .read (.access fun var =>
    if traits.eq v var.val then (.ok false, var)
    else ((notify var.val v var.cbs).map fun _ => true, var))

/-- `ConfigVar::setValue`. -/
def setValue (traits : Traits T) (v : T) : Op L T Unit :=
  .bind (compareAndNotify traits v) fun changed =>
    if changed then .withGuard .write (.access fun var => (.ok (), { var with val := v }))
    else .access fun var => (.ok (), var)

/-- `ConfigVar::fromString`. -/
def fromString (traits : Traits T) (val : String) : Op L T Bool :=
  .catching (onException false) <| .withGuard .write <|
    .bind (.access fun var => (traits.fromStr val, var)) fun v =>
      .bind (setValue traits v) fun _ => .access fun var => (.ok true, var)

/-- `ConfigVar::getValue`. -/
def getValue : Op L T T :=
  .withGuard .read (.access fun var => (.ok var.val, var))

/-- `ConfigVar::addListener`. -/
def addListener (cb : Listener T) : Op L T Nat :=
  .withGuard .write (.access fun var =>
    let id := (var.funId + 1) % 2 ^ 64
    let cbs := OrderedMaps.OrderedMap.assignEntry (fun a b => decide (a < b)) id cb var.cbs
    (.ok id, { var with funId := id, cbs := cbs }))

/-- `ConfigVar::delListerner`. -/
def delListerner (key : Nat) : Op L T Unit :=
  .withGuard .write (.access fun var =>
    (.ok (), { var with cbs := var.cbs.filter fun e => e.1 ≠ key }))

/-- `ConfigVar::getListener`. -/
def getListener (key : Nat) : Op L T (Option (Listener T)) :=
  .withGuard .read (.access fun var => (.ok ((var.cbs.find? fun e => e.1 == key).map Prod.snd), var))

end Operations

/-- The calls on a variable. -/
inductive Call (T : Type)
  | fromString (val : String)
  | setValue (v : T)
  | getValue
  | toString
  | addListener (cb : Listener T)
  | delListerner (key : Nat)
  | getListener (key : Nat)

/-- What is left after a program, returned or thrown out of. -/
def left {α : Type} (p : Op StrictLock T α) (s : Guarded StrictLock (ConfigVar T)) :
    Option (Guarded StrictLock (ConfigVar T)) :=
  (p s).map Prod.snd

/-- The state after a call, none where it breaks the rules of the lock. -/
def Call.after (traits : Traits T) (s : Guarded StrictLock (ConfigVar T)) :
    Call T → Option (Guarded StrictLock (ConfigVar T))
  | .fromString val => left (ConfigVar.fromString traits val) s
  | .setValue v => left (ConfigVar.setValue traits v) s
  | .getValue => left ConfigVar.getValue s
  | .toString => left (ConfigVar.toString traits) s
  | .addListener cb => left (ConfigVar.addListener cb) s
  | .delListerner key => left (ConfigVar.delListerner key) s
  | .getListener key => left (ConfigVar.getListener key) s

/-- One call. -/
def Step (traits : Traits T) (s : Guarded StrictLock (ConfigVar T)) (c : Call T)
    (s' : Guarded StrictLock (ConfigVar T)) : Prop :=
  c.after traits s = some s'

/-- The call never acquires the lock while its thread holds it, never releases what the
thread does not hold, and leaves the lock free. -/
def Disciplined (traits : Traits T) (s : Guarded StrictLock (ConfigVar T)) (c : Call T) : Prop :=
  ∃ s', Step traits s c s' ∧ s'.lock = .free

/-- The call is no `fromString` whose text converts. -/
def ConvertsNothing (traits : Traits T) : Call T → Prop
  | .fromString val => ∃ e, traits.fromStr val = .error e
  | _ => True

section Calls

variable {traits : Traits T} {s : Guarded StrictLock (ConfigVar T)}

/-- `setValue` gives back what it takes. -/
theorem balanced_setValue (v : T) : Program.Balanced (setValue traits v) := by
  refine (Program.quiet_access _).withGuard .read |>.bind fun changed => ?_
  cases changed with
  | true =>
      rw [if_pos rfl]
      exact (Program.quiet_access _).withGuard .write
  | false =>
      rw [if_neg Bool.false_ne_true]
      exact (Program.quiet_access _).balanced

/-- A balanced operation keeps to the rules. -/
theorem left_of_balanced {α : Type} {p : Op StrictLock T α} (h : Program.Balanced p)
    (hfree : s.lock = .free) : ∃ s', left p s = some s' ∧ s'.lock = .free := by
  obtain ⟨r, s', hrun, hheld⟩ := h s hfree
  exact ⟨s', by rw [left, hrun]; rfl, hheld⟩

/-- A text that does not convert: the guard is left by the exception. -/
theorem fromString_of_error {val : String} {e : Thrown} (h : traits.fromStr val = .error e) :
    Program.Balanced (fromString traits val) := by
  apply Program.Balanced.catching
  apply Program.Quiet.withGuard
  intro s
  refine ⟨.error e, s, ?_, rfl⟩
  simp only [Program.bind, Program.access, h]

/-- A text that converts: `setValue` makes its read guard in the scope of the write
guard. -/
theorem fromString_of_ok {val : String} {v : T} (h : traits.fromStr val = .ok v)
    (s : Guarded StrictLock (ConfigVar T)) : fromString traits val s = none := by
  have hset : ∀ s : Guarded StrictLock (ConfigVar T), s.lock ≠ .free →
      setValue traits v s = none := by
    intro s hheld
    have hcompare : compareAndNotify traits v s = none := Program.withGuard_of_held hheld _ _
    simp only [setValue, Program.bind, hcompare]
  obtain ⟨var, lock⟩ := s
  obtain ⟨held⟩ := lock
  unfold fromString Program.catching Program.withGuard
  cases held with
  | some mode => rfl
  | none =>
      have hnone := hset { data := var, lock := ⟨some .write⟩ } (by simp [StrictLock.free])
      simp only [Lock.acquire, Program.bind, Program.access, h, hnone]

/-- With a free lock a call is disciplined exactly when it converts nothing. -/
theorem disciplined_iff (hfree : s.lock = .free) (c : Call T) :
    Disciplined traits s c ↔ ConvertsNothing traits c := by
  cases c with
  | fromString val =>
      cases hconv : traits.fromStr val with
      | error e =>
          have hleft := left_of_balanced (fromString_of_error hconv) hfree
          exact ⟨fun _ => ⟨e, hconv⟩, fun _ => hleft⟩
      | ok v =>
          have hnone : left (fromString traits val) s = none := by
            rw [left, fromString_of_ok hconv]
            rfl
          constructor
          · intro hdisciplined
            obtain ⟨s', hstep, -⟩ := hdisciplined
            cases hnone.symm.trans hstep
          · intro herror
            obtain ⟨e, he⟩ := herror
            cases hconv.symm.trans he
  | setValue v => exact ⟨fun _ => trivial, fun _ => left_of_balanced (balanced_setValue v) hfree⟩
  | toString =>
      refine ⟨fun _ => trivial, fun _ => left_of_balanced ?_ hfree⟩
      exact ((Program.quiet_access _).withGuard .read).catching _
  | getValue | addListener cb | delListerner key | getListener key =>
      refine ⟨fun _ => trivial, fun _ => left_of_balanced ?_ hfree⟩
      exact (Program.quiet_access _).withGuard _

end Calls

/-- **The lock discipline.**  For every variable and every sequence of calls of one
thread, the calls keep to the rules of the lock exactly when no `fromString` among them
has a text that converts. -/
theorem disciplined_iff_converts_nothing (traits : Traits T) (default : T)
    (calls : List (Call T)) :
    Along (Step traits) (Disciplined traits) (new default) calls ↔
      ∀ c ∈ calls, ConvertsNothing traits c := by
  have hgeneral : ∀ s : Guarded StrictLock (ConfigVar T), s.lock = .free →
      (Along (Step traits) (Disciplined traits) s calls ↔
        ∀ c ∈ calls, ConvertsNothing traits c) := by
    induction calls with
    | nil => exact fun _ _ => ⟨fun _ => nofun, fun _ => trivial⟩
    | cons c calls ih =>
        intro s hfree
        rw [List.forall_mem_cons]
        constructor
        · intro halong
          obtain ⟨hc, hrest⟩ := halong
          obtain ⟨s', hstep, hfree'⟩ := hc
          exact ⟨(disciplined_iff hfree c).mp ⟨s', hstep, hfree'⟩,
            (ih s' hfree').mp (hrest s' hstep)⟩
        · intro hall
          obtain ⟨hc, hcalls⟩ := hall
          have hdisciplined := (disciplined_iff hfree c).mpr hc
          refine ⟨hdisciplined, fun s' hstep => ?_⟩
          obtain ⟨t, ht, hfree'⟩ := hdisciplined
          obtain rfl : t = s' := Option.some.inj (ht.symm.trans hstep)
          exact (ih t hfree').mpr hcalls
  exact hgeneral (new default) rfl

/-- The traits of a variable that holds a text. -/
def textTraits : Traits String where
  eq a b := a == b
  fromStr val := .ok val
  toStr v := .ok v

/-- A new text is assigned through `fromString`. -/
theorem fromString_breaks_discipline :
    ¬ ∀ calls : List (Call String),
      Along (Step textTraits) (Disciplined textTraits) (new "old") calls := by
  intro hall
  obtain ⟨hcall, -⟩ := hall [.fromString "new"]
  obtain ⟨s', hstep, -⟩ := hcall
  have hnone : Call.after textTraits (new "old") (.fromString "new") = none := by
    change left (fromString textTraits "new") (new "old") = none
    rw [left, fromString_of_ok rfl]
    rfl
  cases hnone.symm.trans hstep

end ConfigVar

end Config

end Agent
