import GServer.TimerManager

/-!
# The invariant of the timer set

Every operation keeps `TimerManager.Inv`: the set stands in the order of the
timers' current deadlines, its members are allocated, and a timer that still
has its callback is a member.  An operation that changes a deadline does so
while its timer is out of the set, which is what keeps the order
(`Sorted.setTimer`).
-/

namespace Agent

open Runs SortedSet

namespace TimerManager

variable {Cb : Type}

/-- The comparator is a strict linear order at every moment. -/
theorem less_strictLinear (m : TimerManager Cb) : StrictLinear m.less where
  irrefl a := by simp [less, keyLess]
  trans a b c := by
    simp only [less, keyLess]
    grind
  total a b hab := by
    simp only [less, keyLess]
    grind

@[simp] theorem setTimer_timers (m : TimerManager Cb) (a : Addr) (t : Timer Cb) :
    (m.setTimer a t).timers = m.timers := rfl

@[simp] theorem setTimer_heap_self (m : TimerManager Cb) (a : Addr) (t : Timer Cb) :
    (m.setTimer a t).heap a = some t := by
  simp [setTimer]

/-- Writing one timer leaves the others. -/
theorem setTimer_heap_of_ne {m : TimerManager Cb} {a b : Addr} {t : Timer Cb}
    (h : b ≠ a) : (m.setTimer a t).heap b = m.heap b := by
  simp [setTimer, Function.update_of_ne h]

@[simp] theorem insertTimer_heap (m : TimerManager Cb) (a : Addr) :
    (m.insertTimer a).heap = m.heap := rfl

@[simp] theorem addLocked_heap (m : TimerManager Cb) (a : Addr) :
    (m.addLocked a).2.heap = m.heap := rfl

@[simp] theorem addLocked_timers (m : TimerManager Cb) (a : Addr) :
    (m.addLocked a).2.timers = (m.insertTimer a).timers := rfl

@[simp] theorem insertTimer_previousTime (m : TimerManager Cb) (a : Addr) :
    (m.insertTimer a).previousTime = m.previousTime := rfl

@[simp] theorem addLocked_previousTime (m : TimerManager Cb) (a : Addr) :
    (m.addLocked a).2.previousTime = m.previousTime := rfl

/-- One more timer is in the set. -/
theorem mem_insertTimer {m : TimerManager Cb} {a b : Addr} :
    b ∈ (m.insertTimer a).timers ↔ b = a ∨ b ∈ m.timers :=
  mem_insert (less_strictLinear m)

/-- The order of a set only depends on the deadlines of its members. -/
theorem sorted_congr {m m' : TimerManager Cb} {l : List Addr}
    (hnext : ∀ a ∈ l, m'.nextOf a = m.nextOf a) (h : Sorted m.less l) :
    Sorted m'.less l := by
  refine List.Pairwise.imp_of_mem ?_ h
  intro a b ha hb hab
  simpa [less, hnext a ha, hnext b hb] using hab

/-- A timer outside the set may change without disturbing the order. -/
theorem sorted_setTimer {m : TimerManager Cb} {l : List Addr} {a : Addr}
    {t : Timer Cb} (ha : a ∉ l) (h : Sorted m.less l) :
    Sorted (m.setTimer a t).less l := by
  refine sorted_congr (fun b hb => ?_) h
  have hne : b ≠ a := fun heq => ha (heq ▸ hb)
  simp [nextOf, setTimer_heap_of_ne hne]

/-- The set is in the order of the current deadlines, its members are
allocated, and every timer with a callback is a member. -/
structure Inv (m : TimerManager Cb) : Prop where
  sorted : Sorted m.less m.timers
  allocated : ∀ a ∈ m.timers, (m.heap a).isSome
  live : ∀ a t, m.heap a = some t → t.cb.isSome → a ∈ m.timers

/-- A new manager is in order. -/
theorem inv_new (now : UInt64) : Inv (new now : TimerManager Cb) where
  sorted := List.Pairwise.nil
  allocated := fun _ ha => absurd ha List.not_mem_nil
  live := fun _ _ ht => by simp [new] at ht

/-- The two managers agree on every timer but the one at `a`. -/
structure ChangesOnly (m m' : TimerManager Cb) (a : Addr) : Prop where
  heap : ∀ b, b ≠ a → m'.heap b = m.heap b
  mem : ∀ b, b ≠ a → (b ∈ m'.timers ↔ b ∈ m.timers)
  previousTime : m'.previousTime = m.previousTime

/-- Nothing changes. -/
theorem ChangesOnly.refl (m : TimerManager Cb) (a : Addr) : ChangesOnly m m a :=
  ⟨fun _ _ => rfl, fun _ _ => Iff.rfl, rfl⟩

/-- The invariant does not depend on the flag and the clock. -/
theorem Inv.congr {m m' : TimerManager Cb} (h : Inv m) (hheap : m'.heap = m.heap)
    (htimers : m'.timers = m.timers) : Inv m' where
  sorted := by
    rw [htimers]
    exact sorted_congr (fun a _ => by simp [nextOf, hheap]) h.sorted
  allocated := by
    rw [htimers, hheap]
    exact h.allocated
  live := by
    rw [htimers, hheap]
    exact h.live

/-- What `eraseTimer` leaves when its timer is a member: the same timers, in
the same order, without that one. -/
theorem eraseTimer_mem {m : TimerManager Cb} {a : Addr} (hsorted : Sorted m.less m.timers)
    (ha : a ∈ m.timers) :
    ∃ m', m.eraseTimer a = some m' ∧ m'.heap = m.heap ∧
      m'.previousTime = m.previousTime ∧ Sorted m'.less m'.timers ∧
      ∀ b, b ∈ m'.timers ↔ b ≠ a ∧ b ∈ m.timers := by
  obtain ⟨i, hi, hget⟩ := hsorted.find?_mem (less_strictLinear m) ha
  refine ⟨{ m with timers := m.timers.eraseIdx i }, by simp [eraseTimer, hi], rfl, rfl,
    hsorted.eraseIdx i, ?_⟩
  exact fun b => hsorted.mem_eraseIdx (less_strictLinear m) hget

/-- Setting a timer outside the set and inserting it keeps the order, adds
that timer and leaves the others alone. -/
theorem insert_setTimer {m : TimerManager Cb} {a : Addr} {t : Timer Cb}
    (hsorted : Sorted m.less m.timers) (ha : a ∉ m.timers) :
    Sorted ((m.setTimer a t).insertTimer a).less ((m.setTimer a t).insertTimer a).timers ∧
    ∀ b, b ∈ ((m.setTimer a t).insertTimer a).timers ↔ b = a ∨ b ∈ m.timers := by
  refine ⟨?_, fun b => mem_insertTimer⟩
  exact (sorted_setTimer ha hsorted).insert (less_strictLinear _)

/-- Setting a timer outside the set and inserting it keeps the invariant and
the other timers. -/
theorem insert_setTimer_spec {m : TimerManager Cb} {a : Addr} {t : Timer Cb}
    (hsorted : Sorted m.less m.timers) (ha : a ∉ m.timers)
    (hallocated : ∀ b ∈ m.timers, (m.heap b).isSome)
    (hlive : ∀ b t, b ≠ a → m.heap b = some t → t.cb.isSome → b ∈ m.timers) :
    Inv ((m.setTimer a t).insertTimer a) ∧
    ChangesOnly m ((m.setTimer a t).insertTimer a) a := by
  obtain ⟨hsorted', hmem⟩ := insert_setTimer (t := t) hsorted ha
  refine ⟨⟨hsorted', fun b hb => ?_, fun b u hu hcb => ?_⟩,
    fun b hba => ?_, fun b hba => ?_, rfl⟩
  · by_cases hba : b = a
    · subst hba
      simp
    · rw [insertTimer_heap, setTimer_heap_of_ne hba]
      exact hallocated b (((hmem b).mp hb).resolve_left hba)
  · by_cases hba : b = a
    · exact (hmem b).mpr (Or.inl hba)
    · rw [insertTimer_heap, setTimer_heap_of_ne hba] at hu
      exact (hmem b).mpr (Or.inr (hlive b u hba hu hcb))
  · rw [insertTimer_heap, setTimer_heap_of_ne hba]
  · rw [hmem b]
    exact or_iff_right hba

/-- `addTimer` makes a timer and keeps the set in order. -/
theorem addTimer_spec {m m' : TimerManager Cb} {a : Addr} {ms now : UInt64}
    {cb : Option Cb} {recuring atFront : Bool} (h : Inv m)
    (hstep : m.addTimer a ms cb recuring now = some (atFront, m')) :
    Inv m' ∧ ChangesOnly m m' a ∧ m.heap a = none := by
  unfold addTimer at hstep
  cases hheap : m.heap a with
  | some t => simp [hheap] at hstep
  | none =>
      simp only [hheap, Option.some.injEq] at hstep
      have ha : a ∉ m.timers := fun hmem => by
        have := h.allocated a hmem
        simp [hheap] at this
      obtain ⟨hinv, honly⟩ := insert_setTimer_spec
        (t := { recuring := recuring, ms := ms, next := now + ms, cb := cb })
        h.sorted ha h.allocated (fun b t _ => h.live b t)
      obtain rfl := (congrArg Prod.snd hstep).symm
      exact ⟨hinv.congr rfl rfl, ⟨honly.heap, honly.mem, honly.previousTime⟩, rfl⟩

/-- `cancel` changes its own timer only. -/
theorem cancel_spec {m m' : TimerManager Cb} {a : Addr} {ok : Bool} (h : Inv m)
    (hstep : m.cancel a = some (ok, m')) : Inv m' ∧ ChangesOnly m m' a := by
  unfold cancel at hstep
  cases hheap : m.heap a with
  | none => simp [hheap] at hstep
  | some t =>
      simp only [hheap] at hstep
      by_cases hcb : t.cb.isSome
      · have ha : a ∈ m.timers := h.live a t hheap hcb
        let m₁ := m.setTimer a { t with cb := none }
        have hnext : ∀ b, m₁.nextOf b = m.nextOf b := by
          intro b
          by_cases hba : b = a
          · subst hba
            simp [m₁, nextOf, hheap]
          · simp [m₁, nextOf, setTimer_heap_of_ne hba]
        obtain ⟨m₂, herase, hheap₂, hprev₂, hsorted₂, hmem₂⟩ :=
          eraseTimer_mem (m := m₁) (sorted_congr (fun b _ => hnext b) h.sorted) ha
        obtain ⟨-, rfl⟩ : true = ok ∧ m₂ = m' := by
          simpa [hcb, m₁, herase] using hstep
        have hother : ∀ b, b ≠ a → m₂.heap b = m.heap b := by
          intro b hba
          rw [hheap₂]
          exact setTimer_heap_of_ne hba
        refine ⟨⟨hsorted₂, fun b hb => ?_, fun b u hu hub => ?_⟩,
          hother, fun b hba => ?_, hprev₂⟩
        · obtain ⟨hba, hbm⟩ := (hmem₂ b).mp hb
          rw [hother b hba]
          exact h.allocated b hbm
        · by_cases hba : b = a
          · subst hba
            obtain rfl : { t with cb := none } = u := by
              simpa [hheap₂, m₁] using hu
            simp at hub
          · rw [hother b hba] at hu
            exact (hmem₂ b).mpr ⟨hba, h.live b u hu hub⟩
        · rw [hmem₂ b]
          exact and_iff_right hba
      · rw [if_neg hcb] at hstep
        obtain ⟨-, rfl⟩ : false = ok ∧ m = m' := by simpa using hstep
        exact ⟨h, .refl m a⟩

/-- The common part of `refresh` and `reset`: erase a member, change it, put
it back. -/
theorem eraseTimer_insert_spec {m m₁ : TimerManager Cb} {a : Addr} {t : Timer Cb}
    (h : Inv m) (ha : a ∈ m.timers) (herase : m.eraseTimer a = some m₁) :
    Inv ((m₁.setTimer a t).insertTimer a) ∧
    ChangesOnly m ((m₁.setTimer a t).insertTimer a) a := by
  obtain ⟨m₂, herase₂, hheap, hprev, hsorted, hmem⟩ := eraseTimer_mem h.sorted ha
  obtain rfl : m₂ = m₁ := Option.some.inj (herase₂.symm.trans herase)
  obtain ⟨hinv, honly⟩ := insert_setTimer_spec (t := t) hsorted
    (fun hin => ((hmem a).mp hin).1 rfl)
    (fun b hb => by
      rw [hheap]
      exact h.allocated b ((hmem b).mp hb).2)
    (fun b u hba hu hcb => by
      rw [hheap] at hu
      exact (hmem b).mpr ⟨hba, h.live b u hu hcb⟩)
  refine ⟨hinv, fun b hba => ?_, fun b hba => ?_, honly.previousTime.trans hprev⟩
  · rw [honly.heap b hba, hheap]
  · rw [honly.mem b hba, hmem b]
    exact and_iff_right hba

/-- `refresh` changes its own timer only. -/
theorem refresh_spec {m m' : TimerManager Cb} {a : Addr} {now : UInt64} {ok : Bool}
    (h : Inv m) (hstep : m.refresh a now = some (ok, m')) :
    Inv m' ∧ ChangesOnly m m' a := by
  unfold refresh at hstep
  cases hheap : m.heap a with
  | none => simp [hheap] at hstep
  | some t =>
      simp only [hheap] at hstep
      by_cases hcb : t.cb.isNone
      · obtain ⟨-, rfl⟩ : false = ok ∧ m = m' := by simpa [hcb] using hstep
        exact ⟨h, .refl m a⟩
      rw [if_neg hcb] at hstep
      have ha : a ∈ m.timers := h.live a t hheap (by cases hc : t.cb <;> simp_all)
      cases herase : m.eraseTimer a with
      | none =>
          obtain ⟨-, rfl⟩ : false = ok ∧ m = m' := by simpa [herase] using hstep
          exact ⟨h, .refl m a⟩
      | some m₁ =>
          simp only [herase, Option.some.injEq] at hstep
          obtain rfl := (congrArg Prod.snd hstep).symm
          exact eraseTimer_insert_spec h ha herase

/-- `reset` changes its own timer only. -/
theorem reset_spec {m m' : TimerManager Cb} {a : Addr} {ms now : UInt64}
    {fromNow ok atFront : Bool} (h : Inv m)
    (hstep : m.reset a ms fromNow now = some (ok, atFront, m')) :
    Inv m' ∧ ChangesOnly m m' a := by
  unfold reset at hstep
  cases hheap : m.heap a with
  | none => simp [hheap] at hstep
  | some t =>
      simp only [hheap] at hstep
      by_cases hsame : (ms == t.ms && !fromNow) = true
      · rw [if_pos hsame] at hstep
        obtain ⟨-, -, rfl⟩ : true = ok ∧ false = atFront ∧ m = m' := by simpa using hstep
        exact ⟨h, .refl m a⟩
      rw [if_neg hsame] at hstep
      by_cases hcb : t.cb.isNone
      · rw [if_pos hcb] at hstep
        obtain ⟨-, -, rfl⟩ : false = ok ∧ false = atFront ∧ m = m' := by simpa using hstep
        exact ⟨h, .refl m a⟩
      rw [if_neg hcb] at hstep
      have ha : a ∈ m.timers := h.live a t hheap (by cases hc : t.cb <;> simp_all)
      cases herase : m.eraseTimer a with
      | none =>
          obtain ⟨-, -, rfl⟩ : false = ok ∧ false = atFront ∧ m = m' := by
            simpa [herase] using hstep
          exact ⟨h, .refl m a⟩
      | some m₁ =>
          simp only [herase, Option.some.injEq] at hstep
          obtain rfl := (congrArg (fun r => r.2.2) hstep).symm
          obtain ⟨hinv, honly⟩ := eraseTimer_insert_spec
            (t := { t with ms := ms, next := (if fromNow then now else t.next - t.ms) + ms })
            h ha herase
          exact ⟨hinv.congr rfl rfl, ⟨honly.heap, honly.mem, honly.previousTime⟩⟩

/-! ## The expiry pass -/

/-- The lower bound of the search timer, moved past the timers due exactly now,
is the end of the timers that are due. -/
theorem takeWhile_lowerBound {m : TimerManager Cb} {l : List Addr} (now : UInt64)
    (probe : Addr) (h : Sorted m.less l) :
    l.takeWhile (fun a => keyLess (m.nextOf a) a now probe) ++
      (l.dropWhile (fun a => keyLess (m.nextOf a) a now probe)).takeWhile
        (fun a => m.nextOf a == now) =
    l.takeWhile (fun a => decide (m.nextOf a ≤ now)) := by
  induction l with
  | nil => rfl
  | cons a l ih =>
      obtain ⟨ha, hl⟩ := List.pairwise_cons.mp h
      by_cases hbefore : keyLess (m.nextOf a) a now probe = true
      · have hle : m.nextOf a ≤ now := by
          simp only [keyLess] at hbefore
          grind
        simp only [List.takeWhile_cons, List.dropWhile_cons, hbefore, if_true,
          hle, decide_true, List.cons_append, ih hl]
      · have hge : now ≤ m.nextOf a := by
          simp only [keyLess] at hbefore
          grind
        have hsame : ∀ b ∈ a :: l,
            (m.nextOf b == now) = decide (m.nextOf b ≤ now) := by
          intro b hb
          have hnb : now ≤ m.nextOf b := by
            rcases List.mem_cons.mp hb with rfl | hb
            · exact hge
            · have hab := ha b hb
              simp only [less, keyLess] at hab
              grind
          by_cases heq : m.nextOf b = now
          · simp [heq]
          · have hnle : ¬ m.nextOf b ≤ now := by grind
            simp [heq, hnle]
        have hnil : (a :: l).takeWhile (fun a => keyLess (m.nextOf a) a now probe) = [] := by
          simp [hbefore]
        have hdrop : (a :: l).dropWhile (fun a => keyLess (m.nextOf a) a now probe) =
            a :: l := by
          simp [hbefore]
        rw [hnil, hdrop, List.nil_append]
        exact takeWhile_congr hsame

/-- What a pass collects: after a roll-back of the clock every timer, otherwise
the timers that are due. -/
theorem expired_eq {m : TimerManager Cb} (h : Inv m) (now : UInt64) (probe : Addr) :
    m.expired now probe =
      if m.detectClockRoller now then m.timers
      else m.timers.takeWhile (fun a => decide (m.nextOf a ≤ now)) := by
  unfold expired
  cases htimers : m.timers with
  | nil => simp
  | cons front rest =>
      have hsorted : Sorted m.less (front :: rest) := htimers ▸ h.sorted
      dsimp only
      split
      · rfl
      · split
        · rename_i hlt
          have hnle : ¬ m.nextOf front ≤ now := by grind
          simp [hnle]
        · exact takeWhile_lowerBound now probe hsorted

/-- A pass collects a prefix of the set. -/
theorem expired_initial {m : TimerManager Cb} (h : Inv m) (now : UInt64) (probe : Addr) :
    m.expired now probe <+: m.timers := by
  rw [expired_eq h]
  split
  · exact List.prefix_refl _
  · exact List.takeWhile_prefix _

/-- A pass collects the timers of the set that are due, or all of them after a roll-back. -/
theorem mem_expired {m : TimerManager Cb} (h : Inv m) {now : UInt64} {probe a : Addr} :
    a ∈ m.expired now probe ↔
      a ∈ m.timers ∧ (m.detectClockRoller now = true ∨ m.nextOf a ≤ now) := by
  rw [expired_eq h]
  by_cases hroll : m.detectClockRoller now = true
  · simp [hroll]
  · have hdown : ∀ a b, m.less a b = true → decide (m.nextOf b ≤ now) = true →
        decide (m.nextOf a ≤ now) = true := by
      intro a b hab hb
      simp only [less, keyLess] at hab
      grind
    rw [if_neg hroll, h.sorted.mem_takeWhile hdown]
    simp [hroll]

/-- What the loop goes on with after the collected timer `a`. -/
def collectOne (now : UInt64) (m : TimerManager Cb) (a : Addr) (t : Timer Cb) :
    TimerManager Cb :=
  if t.recuring then (m.setTimer a (collectTimer now t)).insertTimer a
  else m.setTimer a (collectTimer now t)

/-- Collecting one timer keeps the order and puts a recurring one back. -/
theorem collectOne_spec (now : UInt64) {m : TimerManager Cb} {a : Addr} (t : Timer Cb)
    (hsorted : Sorted m.less m.timers) (ha : a ∉ m.timers) :
    Sorted (collectOne now m a t).less (collectOne now m a t).timers ∧
    (collectOne now m a t).previousTime = m.previousTime ∧
    (collectOne now m a t).heap = Function.update m.heap a (some (collectTimer now t)) ∧
    ∀ b, b ∈ (collectOne now m a t).timers ↔ (b = a ∧ t.recuring = true) ∨ b ∈ m.timers := by
  unfold collectOne
  split
  · rename_i hrec
    obtain ⟨hsorted', hmem⟩ := insert_setTimer (t := collectTimer now t) hsorted ha
    refine ⟨hsorted', rfl, rfl, fun b => ?_⟩
    rw [hmem]
    simp [hrec]
  · rename_i hrec
    refine ⟨sorted_setTimer ha hsorted, rfl, rfl, fun b => ?_⟩
    simp [hrec]

/-- The loop over the collected timers: each is changed by `collectTimer` and
put back when it recurs; the others stay as they are. -/
theorem collect_spec (now : UInt64) :
    ∀ (gone : List Addr) (m : TimerManager Cb),
      Sorted m.less m.timers → gone.Nodup →
      (∀ a ∈ gone, a ∉ m.timers) →
      Sorted (collect now gone m).2.less (collect now gone m).2.timers ∧
      (collect now gone m).2.previousTime = m.previousTime ∧
      (∀ b, b ∉ gone → (collect now gone m).2.heap b = m.heap b ∧
        (b ∈ (collect now gone m).2.timers ↔ b ∈ m.timers)) ∧
      (∀ b ∈ gone, ∀ t, m.heap b = some t →
        (collect now gone m).2.heap b = some (collectTimer now t) ∧
        (b ∈ (collect now gone m).2.timers ↔ t.recuring = true)) := by
  intro gone
  induction gone with
  | nil =>
      intro m hsorted _ _
      exact ⟨hsorted, rfl, fun b _ => ⟨rfl, Iff.rfl⟩,
        fun b hb => absurd hb List.not_mem_nil⟩
  | cons a rest ih =>
      intro m hsorted hnodup hout
      obtain ⟨harest, hnodup⟩ := List.nodup_cons.mp hnodup
      have ha : a ∉ m.timers := hout a List.mem_cons_self
      have hrest : ∀ b ∈ rest, b ∉ m.timers := fun b hb =>
        hout b (List.mem_cons_of_mem a hb)
      cases hheap : m.heap a with
      | none =>
          obtain ⟨hs, hp, hother, hin⟩ := ih m hsorted hnodup hrest
          have hcollect : collect now (a :: rest) m = collect now rest m := by
            simp [collect, hheap]
          rw [hcollect]
          refine ⟨hs, hp, fun b hb => hother b (fun h => hb (List.mem_cons_of_mem a h)),
            fun b hb t ht => ?_⟩
          rcases List.mem_cons.mp hb with rfl | hb
          · simp [hheap] at ht
          · exact hin b hb t ht
      | some t =>
          let m₂ := collectOne now m a t
          obtain ⟨hsorted₂, hprev₂, hheap₂, hmem₂⟩ := collectOne_spec now t hsorted ha
          have hcollect : (collect now (a :: rest) m).2 = (collect now rest m₂).2 := by
            simp only [collect, hheap]
            rfl
          have hrest₂ : ∀ b ∈ rest, b ∉ m₂.timers := by
            intro b hb hin
            rcases (hmem₂ b).mp hin with ⟨rfl, -⟩ | hin
            · exact harest hb
            · exact hrest b hb hin
          obtain ⟨hs, hp, hother, hin⟩ := ih m₂ hsorted₂ hnodup hrest₂
          rw [hcollect]
          refine ⟨hs, hp.trans hprev₂, fun b hb => ?_, fun b hb u hu => ?_⟩
          · have hba : b ≠ a := fun h => hb (h ▸ List.mem_cons_self)
            obtain ⟨hh, hm⟩ := hother b (fun h => hb (List.mem_cons_of_mem a h))
            refine ⟨?_, ?_⟩
            · rw [hh, hheap₂, Function.update_of_ne hba]
            · rw [hm, hmem₂]
              simp [hba]
          · rcases List.mem_cons.mp hb with rfl | hb
            · obtain rfl : t = u := by simpa [hheap] using hu
              obtain ⟨hh, hm⟩ := hother b harest
              refine ⟨?_, ?_⟩
              · rw [hh, hheap₂, Function.update_self]
              · rw [hm, hmem₂]
                simp [ha]
            · have hba : b ≠ a := fun h => harest (h ▸ hb)
              refine hin b hb u ?_
              rw [hheap₂, Function.update_of_ne hba, hu]

/-- What a pass over a non-empty set does. -/
theorem listExpiredCb_spec {m : TimerManager Cb} (h : Inv m) (now : UInt64)
    (probe : Addr) :
    Inv (m.listExpiredCb now probe).2 ∧
    (m.timers ≠ [] → (m.listExpiredCb now probe).2.previousTime = now) ∧
    (∀ b, b ∉ m.expired now probe →
      (m.listExpiredCb now probe).2.heap b = m.heap b ∧
      (b ∈ (m.listExpiredCb now probe).2.timers ↔ b ∈ m.timers)) ∧
    (∀ b ∈ m.expired now probe, ∀ t, m.heap b = some t →
      (m.listExpiredCb now probe).2.heap b = some (collectTimer now t) ∧
      (b ∈ (m.listExpiredCb now probe).2.timers ↔ t.recuring = true)) := by
  unfold listExpiredCb
  by_cases hnil : m.timers = []
  · have hgone : m.expired now probe = [] := by simp [expired, hnil]
    rw [if_pos (by simp [hnil]), hgone]
    exact ⟨h, fun hne => absurd hnil hne, fun b _ => ⟨rfl, Iff.rfl⟩,
      fun b hb => absurd hb List.not_mem_nil⟩
  rw [if_neg (by simp [hnil])]
  dsimp only
  obtain ⟨left, hleft⟩ := expired_initial h now probe
  have hdrop : m.timers.drop (m.expired now probe).length = left := by
    rw [← hleft]
    simp
  rw [hdrop]
  let m₀ : TimerManager Cb := { m with timers := left, previousTime := now }
  have hsorted : Sorted m.less (m.expired now probe ++ left) := hleft ▸ h.sorted
  have hnodup : (m.expired now probe ++ left).Nodup := hsorted.nodup (less_strictLinear m)
  obtain ⟨hnodupGone, -, hdisj⟩ := List.nodup_append.mp hnodup
  have hsortedLeft : Sorted m.less left := (List.pairwise_append.mp hsorted).2.1
  have hmem : ∀ b, b ∈ m.timers ↔ b ∈ m.expired now probe ∨ b ∈ left := by
    intro b
    rw [← hleft, List.mem_append]
  obtain ⟨hs, hp, hother, hin⟩ := collect_spec now (m.expired now probe) m₀
    hsortedLeft hnodupGone (fun a ha hl => hdisj a ha a hl rfl)
  have hkept : ∀ b, b ∉ m.expired now probe → (b ∈ left ↔ b ∈ m.timers) := by
    intro b hb
    rw [hmem b]
    exact (or_iff_right hb).symm
  refine ⟨⟨hs, fun b hb => ?_, fun b t ht hcb => ?_⟩, fun _ => hp,
    fun b hb => ⟨(hother b hb).1, (hother b hb).2.trans (hkept b hb)⟩, hin⟩
  · by_cases hgone : b ∈ m.expired now probe
    · obtain ⟨t, ht⟩ := Option.isSome_iff_exists.mp
        (h.allocated b ((hmem b).mpr (Or.inl hgone)))
      rw [(hin b hgone t ht).1]
      rfl
    · rw [(hother b hgone).1]
      exact h.allocated b ((hkept b hgone).mp ((hother b hgone).2.mp hb))
  · by_cases hgone : b ∈ m.expired now probe
    · obtain ⟨u, hu⟩ := Option.isSome_iff_exists.mp
        (h.allocated b ((hmem b).mpr (Or.inl hgone)))
      obtain ⟨hheap, htimers⟩ := hin b hgone u hu
      obtain rfl : collectTimer now u = t := Option.some.inj (hheap.symm.trans ht)
      refine htimers.mpr ?_
      by_contra hrec
      simp [collectTimer, hrec] at hcb
    · rw [(hother b hgone).1] at ht
      exact (hother b hgone).2.mpr ((hkept b hgone).mpr (h.live b t ht hcb))

/-- The timer a call creates or is made on. -/
def Call.target : Call Cb → Option Addr
  | .addTimer a _ _ _ _ => some a
  | .cancel a => some a
  | .refresh a _ => some a
  | .reset a _ _ _ => some a
  | .getNextTimer _ => none
  | .hasTimer => none
  | .listExpiredCb _ _ => none

/-- `getNextTimer` clears the flag and leaves the rest alone. -/
theorem getNextTimer_manager (m : TimerManager Cb) (now : UInt64) :
    (m.getNextTimer now).2 = { m with tickled := false } := by
  unfold getNextTimer
  dsimp only
  split
  · rfl
  · split <;> rfl

/-- Every call but an expiry pass keeps the invariant and changes its own timer
only. -/
theorem step_spec {m m' : TimerManager Cb} {call : Call Cb} (h : Inv m)
    (hstep : Step m call m') (hpass : ∀ now probe, call ≠ .listExpiredCb now probe) :
    Inv m' ∧ m'.previousTime = m.previousTime ∧
      ∀ b, call.target ≠ some b →
        m'.heap b = m.heap b ∧ (b ∈ m'.timers ↔ b ∈ m.timers) := by
  obtain ⟨r, hr⟩ := hstep
  have ofOnly : ∀ a, call.target = some a → Inv m' ∧ ChangesOnly m m' a →
      Inv m' ∧ m'.previousTime = m.previousTime ∧
        ∀ b, call.target ≠ some b →
          m'.heap b = m.heap b ∧ (b ∈ m'.timers ↔ b ∈ m.timers) := by
    rintro a ha ⟨hinv, honly⟩
    refine ⟨hinv, honly.previousTime, fun b hb => ?_⟩
    have hba : b ≠ a := fun heq => hb (heq ▸ ha)
    exact ⟨honly.heap b hba, honly.mem b hba⟩
  cases call with
  | addTimer a ms cb recuring now =>
      obtain ⟨⟨atFront, m₁⟩, hadd, heq⟩ := Option.map_eq_some_iff.mp hr
      obtain ⟨-, rfl⟩ : _ ∧ m₁ = m' := by simpa using heq
      obtain ⟨hinv, honly, -⟩ := addTimer_spec h hadd
      exact ofOnly a rfl ⟨hinv, honly⟩
  | cancel a =>
      obtain ⟨⟨ok, m₁⟩, hcancel, heq⟩ := Option.map_eq_some_iff.mp hr
      obtain ⟨-, rfl⟩ : _ ∧ m₁ = m' := by simpa using heq
      exact ofOnly a rfl (cancel_spec h hcancel)
  | refresh a now =>
      obtain ⟨⟨ok, m₁⟩, hrefresh, heq⟩ := Option.map_eq_some_iff.mp hr
      obtain ⟨-, rfl⟩ : _ ∧ m₁ = m' := by simpa using heq
      exact ofOnly a rfl (refresh_spec h hrefresh)
  | reset a ms fromNow now =>
      obtain ⟨⟨ok, atFront, m₁⟩, hreset, heq⟩ := Option.map_eq_some_iff.mp hr
      obtain ⟨-, rfl⟩ : _ ∧ m₁ = m' := by simpa using heq
      exact ofOnly a rfl (reset_spec h hreset)
  | getNextTimer now =>
      obtain ⟨-, rfl⟩ : _ ∧ (m.getNextTimer now).2 = m' := by simpa [exec] using hr
      rw [getNextTimer_manager]
      exact ⟨h.congr rfl rfl, rfl, fun b _ => ⟨rfl, Iff.rfl⟩⟩
  | hasTimer =>
      obtain ⟨-, rfl⟩ : _ ∧ m = m' := by simpa [exec] using hr
      exact ⟨h, rfl, fun b _ => ⟨rfl, Iff.rfl⟩⟩
  | listExpiredCb now probe => exact absurd rfl (hpass now probe)

/-- Every call keeps the invariant. -/
theorem step_inv {m m' : TimerManager Cb} {call : Call Cb} (h : Inv m)
    (hstep : Step m call m') : Inv m' := by
  by_cases hpass : ∃ now probe, call = .listExpiredCb now probe
  · obtain ⟨now, probe, rfl⟩ := hpass
    obtain ⟨r, hr⟩ := hstep
    obtain ⟨-, rfl⟩ : _ ∧ (m.listExpiredCb now probe).2 = m' := by simpa [exec] using hr
    exact (listExpiredCb_spec h now probe).1
  · exact (step_spec h hstep fun now probe heq => hpass ⟨now, probe, heq⟩).1

/-- **Timer set consistency.**  The invariant holds in every state that a
sequence of calls reaches from a new manager. -/
theorem reachable_inv {now : UInt64} {m : TimerManager Cb}
    (h : Reachable (fun m => m = new now) Step m) : Inv m :=
  h.invariant (fun _ h0 => h0 ▸ inv_new now) (fun _ _ _ hI _ hs => step_inv hI hs)

end TimerManager

end Agent
