import GServer.ConnectMoves

/-!
# What a hooked `connect` answers

While nobody else touches the descriptor and `addEvent` does not fail, a call returns 0 on
a connected socket only; and it leaves neither a timer nor a registration behind, whatever
others do to the descriptor.  Both hold of the runs in which no registration is taken by
two threads.

The conditions are needed: a call that is awake before the attempt has ended is told by
`SO_ERROR` that there is no error, and a registration that two threads trigger leaves an
entry in the queue.
-/

namespace Agent

open Runs

namespace Connect

open Hook (TimerState unlimited Errno)

variable {C : Type}

/-! ## What is left behind -/

/-- The call has registered its event and has not been resumed. -/
def Phase.waits : Phase → Bool
  | .yielding => true
  | .parked => true
  | _ => false

/-- The call may hold a pending timer. -/
def Phase.armed : Phase → Bool
  | .adding => true
  | .undoing => true
  | .yielding => true
  | .parked => true
  | .resumed => true
  | _ => false

/-- A call that waits is either registered or scheduled once, any other is neither; and its
timer is pending within a round only. -/
structure Call.Tidy (k : Call) : Prop where
  waits : k.registered.toNat + k.scheduled = k.phase.waits.toNat
  struck : k.struck = true → k.registered = true
  pending : k.timer = .pending → k.phase.armed = true

/-- After `Timer::cancel` the timer is not pending, and otherwise as it was or over. -/
theorem Call.cancelTimer_eq (k : Call) :
    ∃ timer, k.cancelTimer = { k with timer := timer } ∧ timer ≠ .pending ∧
      (timer = k.timer ∨ timer = .over ∧ k.timer = .pending) := by
  unfold Call.cancelTimer
  split
  · rename_i hpending
    exact ⟨.over, rfl, by simp, .inr ⟨rfl, hpending⟩⟩
  · rename_i hnot
    exact ⟨k.timer, rfl, hnot, .inl rfl⟩

section Moves

variable {c : C} {k k' : Call} {source : Source C}

/-- A timer is pending within a round only. -/
theorem Call.Tidy.not_pending (ht : k.Tidy) (harmed : k.phase.armed = false) :
    k.timer ≠ .pending := by
  intro hpending
  rw [ht.pending hpending] at harmed
  cases harmed

/-- Who has registered waits. -/
theorem Call.Tidy.waits_of_registered (ht : k.Tidy) (hregistered : k.registered = true) :
    k.phase.waits = true := by
  have hwaits := ht.waits
  rw [hregistered] at hwaits
  by_contra hnot
  rw [Bool.eq_false_iff.mpr hnot] at hwaits
  simp at hwaits

/-- Who waits and is registered is not scheduled. -/
theorem Call.Tidy.not_both (ht : k.Tidy) (hregistered : k.registered = true) :
    k.scheduled = 0 := by
  have hwaits := ht.waits
  rw [hregistered, ht.waits_of_registered hregistered] at hwaits
  simpa using hwaits

/-- Who does not wait is neither registered nor scheduled. -/
theorem Call.Tidy.neither (ht : k.Tidy) (hnot : k.phase.waits = false) :
    k.registered = false ∧ k.struck = false ∧ k.scheduled = 0 := by
  have hwaits := ht.waits
  rw [hnot] at hwaits
  obtain ⟨hregistered, hscheduled⟩ := Nat.add_eq_zero_iff.mp hwaits
  have hfree : k.registered = false := Bool.toNat_eq_zero.mp hregistered
  refine ⟨hfree, ?_, hscheduled⟩
  by_contra hstruck
  have hregistered := ht.struck (Bool.eq_true_of_not_eq_false hstruck)
  simp [hfree] at hregistered

/-- A call that is not registered nor resumed. -/
theorem Call.Tidy.goOn (ht : k.Tidy) (hregistered : k'.registered = k.registered)
    (hstruck : k'.struck = k.struck) (hscheduled : k'.scheduled = k.scheduled)
    (hwaits : k'.phase.waits = k.phase.waits)
    (hpending : k'.timer = .pending → k'.phase.armed = true) : k'.Tidy where
  waits := by rw [hregistered, hscheduled, hwaits, ht.waits]
  struck h := hregistered.trans (ht.struck (hstruck ▸ h))
  pending := hpending

/-- The registration is taken. -/
theorem Call.Tidy.taken (ht : k.Tidy) (hregistered : k.registered = true) {told : Nat}
    {timer : TimerState} (htimer : timer = .pending → k.phase.armed = true) :
    Call.Tidy { k with timer := timer, struck := true, told := told } where
  waits := ht.waits
  struck _ := hregistered
  pending := htimer

/-- **Every move keeps a call tidy.** -/
theorem Move.tidy (h : Move c k source k') (ht : k.Tidy) : k'.Tidy := by
  have hidle : ∀ {phase}, k.phase = phase → phase.armed = false → k.timer ≠ .pending := by
    intro phase hphase harmed
    exact ht.not_pending (hphase ▸ harmed)
  cases h with
  | enter hphase hgoes =>
      refine ht.goOn rfl rfl rfl ?_ fun hpending => absurd hpending (hidle hphase rfl)
      rw [hphase]
      rcases hgoes with rfl | rfl | rfl <;> rfl
  | pass hphase =>
      exact ht.goOn rfl rfl rfl (by rw [hphase]; rfl) fun h => absurd h (hidle hphase rfl)
  | @call answer _ hphase =>
      refine ht.goOn rfl rfl rfl ?_ fun hpending => absurd hpending (hidle hphase rfl)
      rw [hphase]
      cases answer <;> rfl
  | skipTimer hphase | fail hphase =>
      exact ht.goOn rfl rfl rfl (by rw [hphase]; rfl) fun _ => rfl
  | arm hphase => exact ht.goOn rfl rfl rfl (by rw [hphase]; rfl) fun _ => rfl
  | register hphase =>
      obtain ⟨-, -, hscheduled⟩ := ht.neither (by rw [hphase]; rfl)
      exact ⟨by simp [hscheduled, Phase.waits], by simp, fun _ => rfl⟩
  | undo hphase | cancelTimer hphase =>
      obtain ⟨timer, heq, hnot, -⟩ := k.cancelTimer_eq
      rw [heq]
      exact ht.goOn rfl rfl rfl (by rw [hphase]; rfl) fun hpending => absurd hpending hnot
  | yield hphase => exact ht.goOn rfl rfl rfl (by rw [hphase]; rfl) fun _ => rfl
  | resume hphase hscheduled =>
      -- the only entry of the call has been taken from the queue
      have hwaits : k.registered.toNat + k.scheduled = 1 := by
        rw [ht.waits, hphase]
        rfl
      have hafter : k.registered.toNat + (k.scheduled - 1) = 0 := by omega
      exact ⟨hafter, ht.struck, fun _ => rfl⟩
  | timedOut hphase | awake hphase =>
      exact ht.goOn rfl rfl rfl (by rw [hphase]; rfl) fun h => absurd h (hidle hphase rfl)
  | sockopt hphase =>
      refine ht.goOn rfl rfl rfl ?_ fun hpending => absurd hpending (hidle hphase rfl)
      rw [hphase]
      cases hkernel : k.kernel <;> rfl
  | collect | mark | miss => exact ht.goOn rfl rfl rfl rfl (by simp)
  | guard _ hgoes =>
      rcases hgoes with rfl | rfl
      · exact ht.goOn rfl rfl rfl rfl (by simp)
      · exact ht.goOn rfl rfl rfl rfl (by simp)
  | strike _ hregistered => exact ht.taken hregistered (by simp)
  | report _ hregistered | take hregistered => exact ht.taken hregistered ht.pending
  | trigger hstruck =>
      have hregistered := ht.struck hstruck
      refine ⟨?_, by simp, ht.pending⟩
      rw [ht.not_both hregistered, ht.waits_of_registered hregistered]
      rfl
  | epollWait | passOver | settle | touch => exact ht.goOn rfl rfl rfl rfl ht.pending
  | unseen | missed => exact ht

end Moves

/-! ## What is answered -/

/-- The call is between `EINPROGRESS` and its return. -/
def Phase.underWay : Phase → Bool
  | .arming => true
  | .adding => true
  | .undoing => true
  | .yielding => true
  | .parked => true
  | .resumed => true
  | .testing => true
  | .asking => true
  | _ => false

/-- The call has not armed its timer. -/
def Phase.beforeTimer : Phase → Bool
  | .entry => true
  | .passing => true
  | .calling => true
  | .arming => true
  | _ => false

/-- The attempt is on its way or has ended. -/
def Kernel.started : Kernel → Bool
  | .connecting => true
  | .connected => true
  | .failed _ => true
  | _ => false

/-- The attempt has ended. -/
def Kernel.settled : Kernel → Bool
  | .connected => true
  | .failed _ => true
  | _ => false

/-- `cancelled` is set by the callback of a timer, which a call without limit has not. -/
structure Call.Timed (k : Call) : Prop where
  unarmed : k.phase.beforeTimer = true → k.timer = .unarmed
  limited : k.timer ≠ .unarmed → k.timeout ≠ unlimited
  marked : k.timer = .marked → k.cancelled = true
  fired : k.cancelled = true → k.timer ≠ .unarmed

/-- The call is awake when the attempt has ended or its timer has gone off, and it asks for
the error of the socket when the attempt has ended; what the event loop has been told since
it registered is that end. -/
structure Call.Sure (k : Call) : Prop where
  started : k.phase.underWay = true → k.kernel.started = true
  told : k.registered = true → 0 < k.told → k.kernel.settled = true
  awake : k.struck = true ∨ 0 < k.scheduled ∨ k.phase = .resumed ∨ k.phase = .testing →
    k.cancelled = true ∨ k.kernel.settled = true
  asking : k.phase = .asking → k.kernel.settled = true
  added : k.phase ≠ .undoing

section Moves

variable {c : C} {k k' : Call} {source : Source C}

/-- The timer is left alone. -/
theorem Call.Timed.goOn (ht : k.Timed) (htimer : k'.timer = k.timer)
    (htimeout : k'.timeout = k.timeout) (hcancelled : k'.cancelled = k.cancelled)
    (hbefore : k'.phase.beforeTimer = true → k.phase.beforeTimer = true) : k'.Timed where
  unarmed h := htimer.trans (ht.unarmed (hbefore h))
  limited h := htimeout ▸ ht.limited (htimer ▸ h)
  marked h := hcancelled ▸ ht.marked (htimer ▸ h)
  fired h := htimer ▸ ht.fired (hcancelled ▸ h)

/-- A timer that has been armed changes its state. -/
theorem Call.Timed.later (ht : k.Timed) (hphase : k'.phase = k.phase)
    (htimeout : k'.timeout = k.timeout) (hold : k.timer ≠ .unarmed)
    (hnew : k'.timer ≠ .unarmed) (hmarked : k'.timer = .marked → k'.cancelled = true) :
    k'.Timed where
  unarmed h := absurd (ht.unarmed (hphase ▸ h)) hold
  limited _ := htimeout ▸ ht.limited hold
  marked := hmarked
  fired _ := hnew

/-- Cancelling keeps what is known of the timer. -/
theorem Call.Timed.cancelTimer (ht : k.Timed) {phase : Phase}
    (hbefore : phase.beforeTimer = false) :
    Call.Timed { k.cancelTimer with phase := phase } := by
  have habsurd : phase.beforeTimer = true → False := by simp [hbefore]
  obtain ⟨timer, heq, -, rfl | ⟨rfl, hpending⟩⟩ := k.cancelTimer_eq
  · rw [heq]
    exact ht.goOn rfl rfl rfl fun h => (habsurd h).elim
  · rw [heq]
    have hold : k.timer ≠ .unarmed := by simp [hpending]
    exact ⟨fun h => (habsurd h).elim, fun _ => ht.limited hold, by simp, by simp⟩

/-- **Every move keeps what is known of the timer.** -/
theorem Move.timed (h : Move c k source k') (ht : k.Timed) : k'.Timed := by
  cases h with
  | enter hphase hgoes =>
      have hunarmed : k.timer = .unarmed := ht.unarmed (by rw [hphase]; rfl)
      exact ⟨fun _ => hunarmed, fun h => absurd hunarmed h, by simp [hunarmed], by simp⟩
  | pass hphase | call hphase =>
      exact ht.goOn rfl rfl rfl fun _ => by rw [hphase]; rfl
  | arm hphase htimeout =>
      exact ⟨by simp [Phase.beforeTimer], fun _ => htimeout, by simp, by simp⟩
  | undo | cancelTimer => exact ht.cancelTimer rfl
  | skipTimer | register | fail | yield | resume | timedOut | awake =>
      exact ht.goOn rfl rfl rfl (by simp [Phase.beforeTimer])
  | sockopt =>
      refine ht.goOn rfl rfl rfl fun h => ?_
      cases hkernel : k.kernel <;> simp [hkernel, Kernel.answer, Phase.beforeTimer] at h
  | collect htimer => exact ht.later rfl rfl (by simp [htimer]) (by simp) (by simp)
  | guard htimer hgoes =>
      rcases hgoes with rfl | rfl
      · exact ht.later rfl rfl (by simp [htimer]) (by simp) (by simp)
      · exact ht.later rfl rfl (by simp [htimer]) (by simp) (by simp)
  | mark htimer => exact ht.later rfl rfl (by simp [htimer]) (by simp) fun _ => rfl
  | strike htimer | miss htimer =>
      exact ht.later rfl rfl (by simp [htimer]) (by simp) (by simp)
  | epollWait | report | passOver | trigger | settle | unseen | take | touch | missed =>
      exact ht.goOn rfl rfl rfl id

/-- Who is registered is under way. -/
theorem Call.Tidy.underWay (ht : k.Tidy) (h : k.registered = true) : k.phase.underWay = true := by
  have hwaits := ht.waits_of_registered h
  cases hphase : k.phase with
  | yielding | parked => rfl
  | _ => simp [hphase, Phase.waits] at hwaits

/-- Who waits is under way. -/
theorem Phase.not_waits_of_away {phase : Phase} (haway : phase.underWay = false) :
    phase.waits = false := by
  cases phase with
  | yielding | parked => cases haway
  | _ => rfl

/-- A call that is not under way. -/
theorem Call.sure_of_away (haway : k.phase.underWay = false)
    (hneither : k.registered = false ∧ k.struck = false ∧ k.scheduled = 0) : k.Sure := by
  obtain ⟨hregistered, hstruck, hscheduled⟩ := hneither
  constructor
  · simp [haway]
  · simp [hregistered]
  · rintro (h | h | h | h)
    · simp [hstruck] at h
    · simp [hscheduled] at h
    · simp [h, Phase.underWay] at haway
    · simp [h, Phase.underWay] at haway
  · intro h
    simp [h, Phase.underWay] at haway
  · intro h
    simp [h, Phase.underWay] at haway

/-- A call that has not been woken. -/
theorem Call.sure_of_asleep (hstarted : k.kernel.started = true)
    (htold : k.registered = true → k.told = 0) (hstruck : k.struck = false)
    (hscheduled : k.scheduled = 0)
    (hphase : k.phase = .arming ∨ k.phase = .adding ∨ k.phase = .yielding) : k.Sure := by
  refine ⟨fun _ => hstarted, fun h hsome => ?_, ?_, ?_, ?_⟩
  · simp [htold h] at hsome
  · rcases hphase with h | h | h <;> simp [h, hstruck, hscheduled]
  · rcases hphase with h | h | h <;> simp [h]
  · rcases hphase with h | h | h <;> simp [h]

/-- Only the timer changes, or nothing does. -/
theorem Call.Sure.same (hs : k.Sure) (hphase : k'.phase = k.phase)
    (hkernel : k'.kernel = k.kernel) (hregistered : k'.registered = k.registered)
    (hstruck : k'.struck = k.struck) (htold : k'.told ≤ k.told)
    (hscheduled : k'.scheduled = k.scheduled)
    (hcancelled : k.cancelled = true → k'.cancelled = true) : k'.Sure where
  started h := hkernel ▸ hs.started (hphase ▸ h)
  told h hsome := hkernel ▸ hs.told (hregistered ▸ h) (hsome.trans_le htold)
  awake h := by
    rw [hstruck, hscheduled, hphase] at h
    rw [hkernel]
    exact (hs.awake h).imp_left hcancelled
  asking h := hkernel ▸ hs.asking (hphase ▸ h)
  added := hphase ▸ hs.added

/-- The registration is taken by the callback of the timer or at the end of the attempt. -/
theorem Call.Sure.taken (hs : k.Sure) {timer : TimerState} {told : Nat} (hless : told ≤ k.told)
    (hwoken : k.cancelled = true ∨ k.kernel.settled = true) :
    Call.Sure { k with timer := timer, struck := true, told := told } where
  started := hs.started
  told h hsome := hs.told h (hsome.trans_le hless)
  awake _ := hwoken
  asking := hs.asking
  added := hs.added

/-- An attempt that ends has ended. -/
theorem Kernel.settled_of_settle {kernel kernel' : Kernel} {failed : Option Errno}
    (h : kernel.settle failed = some kernel') : kernel'.settled = true := by
  cases kernel <;> cases failed <;> cases h <;> rfl

/-- What has ended has been started. -/
theorem Kernel.started_of_settled {kernel : Kernel} (h : kernel.settled = true) :
    kernel.started = true := by
  cases kernel with
  | connected | failed => rfl
  | closed | idle | connecting => cases h

/-- A socket is writable when its attempt has ended. -/
theorem Kernel.settled_of_writable {kernel : Kernel} (hstarted : kernel.started = true)
    (hwritable : kernel.writable = true) : kernel.settled = true := by
  cases kernel with
  | connected | failed => rfl
  | connecting => cases hwritable
  | closed | idle => cases hstarted

/-- **Nobody else touches the descriptor**, and the registration does not fail: then a call
knows that the attempt has ended when it asks for the error. -/
theorem Move.sure (h : Move c k source k') (hs : k.Sure) (htidy : k.Tidy) (htimed : k.Timed)
    (hguard : k.phase.underWay = true → source ≠ .foreign ∧ source ≠ .own (.addEvent c true) ∧
      (source = .own (.addEvent c false) → k.told = 0)) : k'.Sure := by
  have hasleep : ∀ {phase}, k.phase = phase → phase.waits = false →
      k.registered = false ∧ k.struck = false ∧ k.scheduled = 0 := by
    intro phase hphase hwaits
    exact htidy.neither (hphase ▸ hwaits)
  have hstarted : ∀ {phase}, k.phase = phase → phase.underWay = true →
      k.kernel.started = true := by
    intro phase hphase hunder
    exact hs.started (hphase ▸ hunder)
  cases h with
  | enter hphase hgoes =>
      refine Call.sure_of_away ?_ (hasleep hphase rfl)
      rcases hgoes with rfl | rfl | rfl <;> rfl
  | pass hphase => exact Call.sure_of_away rfl (hasleep hphase rfl)
  | @call answer kernel hphase hkernel =>
      obtain ⟨hregistered, hstruck, hscheduled⟩ := hasleep hphase rfl
      cases answer with
      | ok | error => exact Call.sure_of_away rfl (hasleep hphase rfl)
      | inProgress =>
          refine Call.sure_of_asleep ?_ (by simp [hregistered]) hstruck hscheduled (.inl rfl)
          cases hk : k.kernel <;> rw [hk] at hkernel <;> cases hkernel
          rfl
  | skipTimer hphase | arm hphase =>
      obtain ⟨hregistered, hstruck, hscheduled⟩ := hasleep hphase rfl
      exact Call.sure_of_asleep (hstarted hphase rfl) (by simp [hregistered]) hstruck hscheduled
        (.inr (.inl rfl))
  | register hphase =>
      obtain ⟨-, -, hscheduled⟩ := hasleep hphase rfl
      have htold := (hguard (by rw [hphase]; rfl)).2.2 rfl
      exact Call.sure_of_asleep (hstarted hphase rfl) (fun _ => htold) rfl hscheduled
        (.inr (.inr rfl))
  | fail hphase => exact absurd rfl (hguard (by rw [hphase]; rfl)).2.1
  | undo hphase => exact absurd hphase hs.added
  | yield hphase =>
      have hunder := hstarted hphase rfl
      refine ⟨fun _ => hunder, hs.told, fun h => hs.awake ?_, by simp, by simp⟩
      exact h.imp_right fun h => .inl (by simpa using h)
  | resume hphase hscheduled =>
      have hunder := hstarted hphase rfl
      exact ⟨fun _ => hunder, hs.told, fun _ => hs.awake (.inr (.inl hscheduled)), by simp,
        by simp⟩
  | cancelTimer hphase =>
      obtain ⟨timer, heq, -⟩ := k.cancelTimer_eq
      have hunder := hstarted hphase rfl
      rw [heq]
      exact ⟨fun _ => hunder, hs.told, fun _ => hs.awake (.inr (.inr (.inl hphase))), by simp,
        by simp⟩
  | timedOut hphase => exact Call.sure_of_away rfl (hasleep hphase rfl)
  | awake hphase hcancelled =>
      have hsettled : k.kernel.settled = true := by
        refine (hs.awake (.inr (.inr (.inr hphase)))).resolve_left ?_
        simp [hcancelled]
      exact ⟨fun _ => Kernel.started_of_settled hsettled, fun _ _ => hsettled,
        fun _ => .inr hsettled, fun _ => hsettled, by simp⟩
  | sockopt hphase =>
      refine Call.sure_of_away ?_ (hasleep hphase rfl)
      cases hkernel : k.kernel <;> rfl
  | collect | guard | miss => exact hs.same rfl rfl rfl rfl le_rfl rfl id
  | mark => exact hs.same rfl rfl rfl rfl le_rfl rfl fun _ => rfl
  | strike htimer => exact hs.taken le_rfl (.inl (htimed.marked htimer))
  | epollWait hwritable =>
      refine ⟨hs.started, fun hregistered _ => ?_, hs.awake, hs.asking, hs.added⟩
      exact Kernel.settled_of_writable (hs.started (htidy.underWay hregistered)) hwritable
  | report htold hregistered =>
      exact hs.taken (Nat.sub_le _ _) (.inr (hs.told hregistered htold))
  | passOver => exact hs.same rfl rfl rfl rfl (Nat.sub_le _ _) rfl id
  | trigger hstruck =>
      exact ⟨hs.started, by simp, fun _ => hs.awake (.inl hstruck), hs.asking, hs.added⟩
  | settle hkernel =>
      have hsettled := Kernel.settled_of_settle hkernel
      exact ⟨fun _ => Kernel.started_of_settled hsettled, fun _ _ => hsettled,
        fun _ => .inr hsettled, fun _ => hsettled, hs.added⟩
  | unseen | missed => exact hs
  | take hregistered => exact absurd rfl (hguard (htidy.underWay hregistered)).1
  | touch =>
      cases hunder : k.phase.underWay with
      | true => exact absurd rfl (hguard hunder).1
      | false => exact Call.sure_of_away hunder (htidy.neither (Phase.not_waits_of_away hunder))

/-- What a call that is sure returns. -/
theorem Move.answers (h : Move c k source k') (hs : k.Sure) (htimed : k.Timed) {n : Int}
    {errno : Errno} (hbefore : k.phase.hasReturned = false)
    (hafter : k'.phase = .returned n errno) :
    (n = 0 ∧ k'.kernel = .connected) ∨
      (n = -1 ∧ ((k.phase = .entry ∧ errno = .ebadf) ∨
        (∃ answer, source = .own (.raw c answer) ∧ answer ≠ .ok ∧ errno = answer.result.2) ∨
        (k.cancelled = true ∧ k.timeout ≠ unlimited ∧ errno = .etimedout) ∨
        (k.phase = .asking ∧ k.kernel = .failed errno))) := by
  have hconnected : ∀ {kernel}, k.kernel.connect .ok = some kernel → kernel = .connected := by
    intro kernel hkernel
    cases hk : k.kernel <;> rw [hk] at hkernel <;> cases hkernel <;> rfl
  have hsame : k.phase ≠ .returned n errno := by
    intro heq
    rw [heq] at hbefore
    cases hbefore
  cases h with
  | enter hphase hgoes =>
      rcases hgoes with rfl | rfl | rfl
      · cases hafter
      · cases hafter
      · cases hafter
        exact .inr ⟨rfl, .inl ⟨hphase, rfl⟩⟩
  | @pass answer kernel hphase hkernel =>
      cases answer with
      | ok =>
          cases hafter
          exact .inl ⟨rfl, hconnected hkernel⟩
      | inProgress | error errno =>
          cases hafter
          exact .inr ⟨rfl, .inr (.inl ⟨_, rfl, by simp, rfl⟩)⟩
  | @call answer kernel hphase hkernel =>
      cases answer with
      | ok =>
          cases hafter
          exact .inl ⟨rfl, hconnected hkernel⟩
      | inProgress => cases hafter
      | error errno =>
          cases hafter
          exact .inr ⟨rfl, .inr (.inl ⟨_, rfl, by simp, rfl⟩)⟩
  | timedOut hphase hcancelled =>
      cases hafter
      have hlimited := htimed.limited (htimed.fired hcancelled)
      exact .inr ⟨rfl, .inr (.inr (.inl ⟨hcancelled, hlimited, rfl⟩))⟩
  | sockopt hphase =>
      have hsettled := hs.asking hphase
      cases hkernel : k.kernel with
      | connected =>
          simp only [hkernel, Kernel.answer] at hafter
          cases hafter
          exact .inl ⟨rfl, rfl⟩
      | failed code =>
          simp only [hkernel, Kernel.answer] at hafter
          cases hafter
          exact .inr ⟨rfl, .inr (.inr (.inr ⟨hphase, rfl⟩))⟩
      | closed | idle | connecting => simp [hkernel, Kernel.settled] at hsettled
  | skipTimer | arm | register | fail | undo | yield | resume | cancelTimer | awake =>
      cases hafter
  | collect | guard | mark | strike | miss | epollWait | report | passOver | trigger | settle
  | unseen | take | touch | missed => exact absurd hafter hsame

end Moves

section Runs

variable [DecidableEq C] {io : Calls C} {s s' : State C} {a : Act C} {c : C}

/-- The call registers while the event loop holds an event that it has been told before. -/
def meetsStale (io : Calls C) (c : C) (s : State C) : Act C → Bool
  | .addEvent d _ => decide (d = c) && decide (0 < (s.write (io.fd c)).told)
  | _ => false

/-- No registration is taken by two threads; and while the call is under way no other code
works on its descriptor, its `addEvent` does not fail, and the event loop has handled what
it has been told before. -/
def Undisturbed (io : Calls C) (c : C) (s : State C) (a : Act C) : Prop :=
  Apart io c s a ∧
    ((s.phase c).underWay = true → a.disturbs io c = false ∧ meetsStale io c s a = false)

instance (io : Calls C) (c : C) (s : State C) : DecidablePred (Undisturbed io c s) :=
  fun a => inferInstanceAs (Decidable (Apart io c s a ∧
    ((s.phase c).underWay = true → a.disturbs io c = false ∧ meetsStale io c s a = false)))

/-- A step that does not disturb the call is its own or unseen, and the call registers with
nothing told. -/
theorem source_of_undisturbed (h : Undisturbed io c s a) (hunder : (s.phase c).underWay = true) :
    a.source io c ≠ .foreign ∧ a.source io c ≠ .own (.addEvent c true) ∧
      (a.source io c = .own (.addEvent c false) → (s.write (io.fd c)).told = 0) := by
  obtain ⟨hquiet, hfresh⟩ := h.2 hunder
  by_cases hactor : a.actor = some c
  · rw [source_own hactor]
    refine ⟨by simp, fun heq => ?_, fun heq => ?_⟩
    · cases heq
      simp [Act.disturbs] at hquiet
    · cases heq
      simpa [meetsStale] using hfresh
  · rw [source_world hactor hquiet]
    simp

/-- The step that is the call's own is this step. -/
theorem eq_of_source {b : Act C} (h : a.source io c = .own b) : a = b := by
  unfold Act.source at h
  split at h
  · injection h
  · split at h <;> cases h

omit [DecidableEq C] in
/-- Nothing is registered at the start. -/
theorem orderly_start : Orderly io (start : State C) := by
  intro fd
  constructor <;> simp [start, WriteContext.new]

/-- A call that has not begun is tidy, timed and sure. -/
theorem call_start : (start.call io c).Tidy ∧ (start.call io c).Timed ∧
    (start.call io c).Sure := by
  have hregistered : (start.call io c).registered = false := by
    simp [State.call, start, WriteContext.registers, WriteContext.new]
  have hstruck : (start.call io c).struck = false := by
    simp [State.call, start, WriteContext.strikes, WriteContext.new]
  refine ⟨⟨by rw [hregistered]; rfl, by simp [hstruck], ?_⟩, ?_, ?_⟩
  · simp [State.call, start]
  · constructor <;> simp [State.call, start]
  · exact Call.sure_of_away rfl ⟨hregistered, hstruck, rfl⟩

/-- What holds of a call in every run in which no registration is taken twice. -/
theorem reachable_tidy (h : ReachableUnder (· = start) (Step io) (Apart io c) s) :
    Orderly io s ∧ (s.call io c).Tidy := by
  refine h.invariant (I := fun s => Orderly io s ∧ (s.call io c).Tidy) ?_ ?_
  · intro s hs
    subst hs
    exact ⟨orderly_start, call_start.1⟩
  · rintro s _ s' ⟨horderly, htidy⟩ hapart hstep
    exact ⟨horderly.step hapart.1 hstep, (move_of_step horderly hapart hstep).tidy htidy⟩

/-- What holds of a call that is not disturbed. -/
theorem reachable_sure (h : ReachableUnder (· = start) (Step io) (Undisturbed io c) s) :
    Orderly io s ∧ (s.call io c).Tidy ∧ (s.call io c).Timed ∧ (s.call io c).Sure := by
  refine h.invariant (I := fun s => Orderly io s ∧ (s.call io c).Tidy ∧ (s.call io c).Timed ∧
    (s.call io c).Sure) ?_ ?_
  · intro s hs
    subst hs
    exact ⟨orderly_start, call_start⟩
  · rintro s a s' ⟨horderly, htidy, htimed, hsure⟩ hguard hstep
    have hmove := move_of_step horderly hguard.1 hstep
    exact ⟨horderly.step hguard.1.1 hstep, hmove.tidy htidy, hmove.timed htimed,
      hmove.sure hsure htidy htimed (source_of_undisturbed hguard)⟩

/-- With the step the call returns 0 on a connected socket; or it returns -1, with `EBADF`
for a descriptor without a context, with the answer of `connect_f`, with `ETIMEDOUT` when
it has a limit and its timer has gone off, or with the error that the attempt has ended
with. -/
def Answers (io : Calls C) (c : C) (s : State C) (a : Act C) (s' : State C) : Prop :=
  ∀ n errno, (s.phase c).hasReturned = false → s'.phase c = .returned n errno →
    (n = 0 ∧ s'.kernel (io.fd c) = .connected) ∨
      (n = -1 ∧ ((s.phase c = .entry ∧ errno = .ebadf) ∨
        (∃ answer, a = .raw c answer ∧ answer ≠ .ok ∧ errno = answer.result.2) ∨
        (s.cancelled c = true ∧ s.timeout c ≠ unlimited ∧ errno = .etimedout) ∨
        (s.phase c = .asking ∧ s.kernel (io.fd c) = .failed errno)))

/-- The coroutine of the call is in the queue, or it comes there with what is left of a
`triggerEvent`, or with the event loop. -/
def Woken (io : Calls C) (s : State C) (c : C) : Prop :=
  0 < s.scheduled c ∨
    ∃ as ∈ [[.trigger (io.fd c)],
        [.epollWait (io.fd c), .report (io.fd c), .trigger (io.fd c)]],
      ∃ s', as.foldlM (step io) s = some s' ∧ 0 < s'.scheduled c

/-- A call that has returned is not registered, not scheduled, and has no timer pending;
and a call that waits is woken when its descriptor is writable and has not been closed
since it registered. -/
def LeavesNothing (io : Calls C) (s : State C) (c : C) : Prop :=
  ((s.phase c).hasReturned = true →
    (∀ fd, (s.write fd).registers c = false) ∧ s.scheduled c = 0 ∧ s.timer c ≠ .pending) ∧
  ((s.phase c).waits = true → (s.kernel (io.fd c)).writable = true →
    (s.write (io.fd c)).closed = false → Woken io s c)

/-- A registration that has been taken is scheduled by `triggerEvent`. -/
theorem trigger_schedules (horderly : Orderly io s)
    (hregistered : (s.write (io.fd c)).registers c = true)
    (htriggering : 0 < (s.write (io.fd c)).triggering) :
    ∃ s', step io s (.trigger (io.fd c)) = some s' ∧ 0 < s'.scheduled c := by
  obtain ⟨hevent, hdecide⟩ := Bool.and_eq_true_iff.mp hregistered
  have hcoroutine : (s.write (io.fd c)).coroutine = some c := of_decide_eq_true hdecide
  obtain ⟨hscheduler, -⟩ := (horderly (io.fd c)).held hevent
  refine ⟨s.trigger (io.fd c), if_pos ⟨htriggering, hscheduler⟩, ?_⟩
  unfold State.trigger
  rw [hcoroutine]
  simp [State.schedule]

/-- A call that is registered on a writable descriptor is woken. -/
theorem woken_of_registered (horderly : Orderly io s)
    (hregistered : (s.write (io.fd c)).registers c = true)
    (hwritable : (s.kernel (io.fd c)).writable = true)
    (hopen : (s.write (io.fd c)).closed = false) : Woken io s c := by
  by_cases htriggering : 0 < (s.write (io.fd c)).triggering
  · obtain ⟨s', hstep, hscheduled⟩ := trigger_schedules horderly hregistered htriggering
    exact .inr ⟨_, List.mem_cons_self, s', by simp [hstep], hscheduled⟩
  · have hevent := (Bool.and_eq_true_iff.mp hregistered).1
    have hwatched : (s.write (io.fd c)).watched = true := by
      rcases (horderly (io.fd c)).watched hevent with h | h | h
      · exact h
      · exact absurd h htriggering
      · simp [hopen] at h
    -- `epoll_wait` reports the descriptor, and the loop finds the event set
    obtain ⟨t, ht, htold⟩ : ∃ t, step io s (.epollWait (io.fd c)) = some t ∧
        t.write (io.fd c) = { s.write (io.fd c) with told := (s.write (io.fd c)).told + 1 } :=
      ⟨_, if_pos (by rw [hwatched, hwritable]; rfl), Function.update_self ..⟩
    obtain ⟨u, hu, hwrite⟩ : ∃ u, step io t (.report (io.fd c)) = some u ∧
        u.write (io.fd c) = (t.write (io.fd c)).handle :=
      ⟨_, if_pos (by rw [htold]; exact Nat.succ_pos _), Function.update_self ..⟩
    have hfree : takesTwice io t (.report (io.fd c)) = false := by
      simpa [takesTwice, htold] using htriggering
    have horderly' : Orderly io u := (horderly.step (a := .epollWait (io.fd c)) rfl ht).step hfree hu
    have htaken : u.write (io.fd c) =
        { (s.write (io.fd c)).take with told := (s.write (io.fd c)).told } := by
      rw [hwrite, htold]
      simp [WriteContext.handle, WriteContext.take, hevent]
    obtain ⟨s', hstep, hscheduled⟩ := trigger_schedules (c := c) horderly'
      (by rw [htaken]; exact hregistered) (by rw [htaken]; exact Nat.succ_pos _)
    refine .inr ⟨_, List.mem_cons_of_mem _ List.mem_cons_self, s', ?_, hscheduled⟩
    simp [ht, hu, hstep]

/-- With a step that takes a registration again, or schedules the coroutine, no call goes
on. -/
theorem phase_of_not_apart (hnot : ¬ Apart io c s a) (hstep : Step io s a s') :
    s'.phase = s.phase := by
  unfold Step step at hstep
  cases a with
  | cancelEvent d ok =>
      obtain ⟨-, hcancel⟩ := Option.ite_none_right_eq_some.mp hstep
      split at hcancel <;> cases hcancel <;> rfl
  | report fd | cancel fd =>
      obtain ⟨-, heq⟩ := Option.ite_none_right_eq_some.mp hstep
      cases heq
      rfl
  | schedule d =>
      cases hstep
      rfl
  | _ => exact absurd ⟨rfl, rfl⟩ hnot

/-- **What `connect` answers.**  In every run in which no registration is taken by two
threads, no other code works on the descriptor of a call while it is under way, and its
`addEvent` does not fail, the call returns 0 on a connected socket only, and otherwise -1
with what has happened. -/
theorem connect_answers (h : ReachableUnder (· = start) (Step io) (Undisturbed io c) s)
    (hstep : Step io s a s') : Answers io c s a s' := by
  obtain ⟨horderly, -, htimed, hsure⟩ := reachable_sure h
  intro n errno hbefore hafter
  have hapart : Apart io c s a := by
    by_contra hnot
    rw [phase_of_not_apart hnot hstep] at hafter
    rw [hafter] at hbefore
    cases hbefore
  rcases (move_of_step horderly hapart hstep).answers hsure htimed hbefore hafter with
    hzero | ⟨hn, hentry | ⟨answer, hsource, hnot, herrno⟩ | hcancelled | hfailed⟩
  · exact .inl hzero
  · exact .inr ⟨hn, .inl hentry⟩
  · exact .inr ⟨hn, .inr (.inl ⟨answer, eq_of_source hsource, hnot, herrno⟩)⟩
  · exact .inr ⟨hn, .inr (.inr (.inl hcancelled))⟩
  · exact .inr ⟨hn, .inr (.inr (.inr hfailed))⟩

end Runs

/-- A call of `connect` on descriptor 3. -/
def connectThree : Calls Unit := { fd := fun _ => 3, timeout := fun _ => none }

/-- The attempt is on its way, and the timer of the call is armed. -/
def attempts : List (Act Unit) :=
  [.opened 3 .socket, .enter () true .socket, .raw () .inProgress, .arm ()]

/-- The attempt ends and the time of the call is up; the event loop and the callback of the
timer both find the event set, and an entry is left in the queue when the call returns. -/
theorem taken_twice_leaves_entry :
    ¬ ∀ s : State Unit, Reachable (· = start) (Step connectThree) s →
      LeavesNothing connectThree s () := by
  intro hall
  obtain ⟨s, hreach, hview⟩ : ∃ s : State Unit, Reachable (· = start) (Step connectThree) s ∧
      (s.phase (), s.scheduled ()) = (.returned (-1) .etimedout, 1) :=
    exists_view rfl (fun _ _ _ h => ⟨trivial, h⟩)
      (attempts ++ [.addEvent () false, .yield (), .settle 3 none, .epollWait 3, .collect (),
        .guard () true, .mark (), .cancelEvent () true, .report 3, .trigger 3, .trigger 3,
        .resume (), .cancelTimer (), .test ()]) (by decide)
  obtain ⟨hphase, hscheduled⟩ := Prod.mk.injEq .. ▸ hview
  obtain ⟨-, hnone, -⟩ := (hall s hreach).1 (by rw [hphase]; rfl)
  rw [hnone] at hscheduled
  cases hscheduled

/-- The socket is refused; the call asks for the error. -/
theorem connect_answers_of_refused :
    ∃ s s' : State Unit, ReachableUnder (· = start) (Step connectThree)
        (Undisturbed connectThree ()) s ∧ Step connectThree s (.sockopt ()) s' ∧
      s'.phase () = .returned (-1) (.other 111) ∧
        Answers connectThree () s (.sockopt ()) s' := by
  obtain ⟨s, hreach, hview⟩ : ∃ s : State Unit, ReachableUnder (· = start) (Step connectThree)
        (Undisturbed connectThree ()) s ∧
      (step connectThree s (.sockopt ())).map (fun s' => s'.phase ()) =
        some (.returned (-1) (.other 111)) :=
    exists_guarded_view rfl (fun _ _ _ h => h) (attempts ++
      [.addEvent () false, .yield (), .settle 3 (some (.other 111)), .epollWait 3, .report 3,
        .trigger 3, .forget 3, .resume (), .cancelTimer (), .test ()]) (by decide)
  obtain ⟨s', hstep, hphase⟩ := Option.map_eq_some_iff.mp hview
  exact ⟨s, s', hreach, hstep, hphase, connect_answers hreach hstep⟩

/-- The registration fails; the call returns 0 while the attempt is on its way. -/
theorem failed_addEvent_answers_zero :
    ¬ ∀ (s s' : State Unit) (a : Act Unit), Reachable (· = start) (Step connectThree) s →
      Step connectThree s a s' → Answers connectThree () s a s' := by
  intro hall
  obtain ⟨s, hreach, hview⟩ : ∃ s : State Unit, Reachable (· = start) (Step connectThree) s ∧
      (s.phase (), (step connectThree s (.sockopt ())).map fun s' =>
        (s'.phase (), s'.kernel 3)) = (.asking, some (.returned 0 .none, .connecting)) :=
    exists_view rfl (fun _ _ _ h => ⟨trivial, h⟩) (attempts ++ [.addEvent () true, .undo ()])
      (by decide)
  obtain ⟨hasking, hnext⟩ := Prod.mk.injEq .. ▸ hview
  obtain ⟨s', hstep, hboth⟩ := Option.map_eq_some_iff.mp hnext
  obtain ⟨hphase, hkernel⟩ := Prod.mk.injEq .. ▸ hboth
  rcases hall s s' _ hreach hstep 0 .none (by rw [hasking]; rfl) hphase with
    ⟨-, hconnected⟩ | ⟨hn, -⟩
  · rw [show s'.kernel (connectThree.fd ()) = .connecting from hkernel] at hconnected
    cases hconnected
  · cases hn

end Connect

end Agent
