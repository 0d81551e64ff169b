import GServer.SchedulerShutdown

/-!
# The workers of an `IOManager`

The idle coroutine of an `IOManager` terminates only after `stopping` has told it to,
which takes a call of `stop`.  So the exit of `run` that does not ask `stopping` is not
taken before `stop` either, and an `IOManager` keeps its workers until then.
-/

namespace Agent

open Runs

namespace Shutdown

variable {W C Cb : Type}

section Outlive

variable [DecidableEq W] [DecidableEq C]

/-- A state that is the end was so or is written. -/
theorem term_of_update {cstate : C → Option Workers.CoState} {c d : C} {st : Workers.CoState}
    (h : Function.update cstate c (some st) d = some .term) :
    cstate d = some .term ∨ d = c ∧ st = .term := by
  by_cases hd : d = c
  · subst hd
    rw [Function.update_self] at h
    exact Or.inr ⟨rfl, Option.some.inj h⟩
  · rw [Function.update_of_ne hd] at h
    exact Or.inl h

/-- What a step can do to the flag, to a terminated coroutine and to the idle
coroutines. -/
structure Effect (s : Workers.State W C) (a : Workers.Act W C) (s' : Workers.State W C) :
    Prop where
  stopping : s.stopping = true → s'.stopping = true
  term : ∀ c, s'.cstate c = some .term → s.cstate c = some .term ∨
    ∃ w kind, a = .yield w .term ∧ s.phase w = .on kind c .executing
  idle : ∀ w i, s'.idle w = some i → s.idle w = some i ∨ a = .start w i

section Effects

variable {s s' : Workers.State W C} {a : Workers.Act W C}

omit [DecidableEq W] [DecidableEq C] in
/-- A step that terminates no coroutine and starts no worker. -/
theorem effect_of_eq (hstopping : s'.stopping = s.stopping) (hidle : s'.idle = s.idle)
    (hterm : ∀ c, s'.cstate c = some .term → s.cstate c = some .term) : Effect s a s' where
  stopping h := by rwa [hstopping]
  term c h := Or.inl (hterm c h)
  idle w i h := Or.inl (by rwa [← hidle])

omit [DecidableEq W] in
/-- Writing another state ends nobody. -/
theorem not_term_of_update {cstate : C → Option Workers.CoState} {c : C}
    {st : Workers.CoState} (hst : st ≠ .term) (d : C)
    (h : Function.update cstate c (some st) d = some .term) : cstate d = some .term :=
  (term_of_update h).resolve_right fun hterm => hst hterm.2

omit [DecidableEq C] in
/-- The idle branch terminates no coroutine and starts no worker. -/
theorem effect_of_idleBranch {w : W} (h : s.idleBranch w = some s') : Effect s a s' := by
  unfold Workers.State.idleBranch at h
  split at h
  · cases h
  · split at h
    · cases h
      exact effect_of_eq rfl rfl fun _ hc => hc
    · cases h
      exact effect_of_eq rfl rfl fun _ hc => hc

/-- What is done after a switch terminates no coroutine and starts no worker. -/
theorem effect_of_postSwap (w : W) (kind : Workers.Kind) (c : C) (stop : Bool) :
    Effect s a (s.postSwap w kind c stop) := by
  unfold Workers.State.postSwap
  cases kind with
  | task =>
      dsimp only
      split
      · exact effect_of_eq rfl rfl fun _ hc => hc
      · split
        · exact effect_of_eq rfl rfl fun _ hc => hc
        · exact effect_of_eq rfl rfl (not_term_of_update (by decide))
  | cb =>
      dsimp only
      split
      · exact effect_of_eq rfl rfl fun _ hc => hc
      · split
        · exact effect_of_eq rfl rfl (not_term_of_update (by decide))
        · exact effect_of_eq rfl rfl (not_term_of_update (by decide))
  | idle =>
      dsimp only
      split
      · exact effect_of_eq rfl rfl fun _ hc => hc
      · split
        · exact effect_of_eq rfl rfl fun _ hc => hc
        · exact effect_of_eq rfl rfl (not_term_of_update (by decide))

/-- A coroutine is terminated by its return only, and an idle coroutine made by `start`. -/
theorem workers_effect (h : Workers.step s a = some s') : Effect s a s' := by
  cases Workers.turn_of_step h with
  | schedule | exit | pickTask | testLive | swapOut => exact effect_of_eq rfl rfl fun _ hc => hc
  | create | pickCb | swapIn => exact effect_of_eq rfl rfl (not_term_of_update (by decide))
  | stop => exact ⟨fun _ => rfl, fun _ hc => Or.inl hc, fun _ _ hi => Or.inl hi⟩
  | @start u c =>
      have hterm : ∀ d, Function.update s.cstate c (some .init) d = some .term →
          s.cstate d = some .term := not_term_of_update (by decide)
      refine ⟨fun hstop => hstop, fun d hd => Or.inl (hterm d hd), ?_⟩
      intro w i hi
      change Function.update s.idle u (some c) w = some i at hi
      by_cases hw : w = u
      · subst hw
        rw [Function.update_self] at hi
        exact Or.inr (Option.some.inj hi ▸ rfl)
      · rw [Function.update_of_ne hw] at hi
        exact Or.inl hi
  | pickNothing _ _ hidle => exact effect_of_idleBranch hidle
  | testEnded _ _ hidle => exact effect_of_idleBranch hidle
  | @yield u kind c wrote hpc =>
      refine ⟨fun hstop => hstop, fun d hd => ?_, fun _ _ hi => Or.inl hi⟩
      rcases term_of_update hd with hd | ⟨rfl, rfl⟩
      · exact Or.inl hd
      · exact Or.inr ⟨u, kind, rfl, hpc⟩
  | update => exact effect_of_postSwap _ _ _ _

end Effects

/-- An idle coroutine that has terminated, or has been told to, was told by a `stopping`
that found `m_stopping` set; and so was every worker that has left. -/
structure Inv (s : State W C Cb) : Prop where
  term : ∀ c, s.idles c = true → s.workers.cstate c = some .term → s.workers.stopping = true
  told : ∀ c, s.told c = some true → s.workers.stopping = true
  idle : ∀ w i, s.workers.idle w = some i → s.idles i = true
  finished : ∀ w, s.workers.phase w = .finished → s.workers.stopping = true

omit [DecidableEq W] [DecidableEq C] in
/-- No worker has begun. -/
theorem inv_start (idleFlag : Bool) (now : UInt64) : Inv (start idleFlag now : State W C Cb) where
  term := nofun
  told := nofun
  idle := nofun
  finished := nofun

omit [DecidableEq W] [DecidableEq C] in
/-- An `IOManager` that stops is a scheduler that stops. -/
theorem stopping_of_stopping {s : State W C Cb} {now : UInt64}
    (h : s.stopping .ioManager now = true) : s.workers.stopping = true := by
  simp only [State.stopping, Bool.and_eq_true] at h
  exact h.2.1

/-- The workers take a step. -/
theorem Inv.via {s r s' : State W C Cb} {b : Workers.Act W C} (h : Inv s)
    (hvia : r.via b = some s') (hworkers : r.workers = s.workers)
    (htold : ∀ c, r.told c = some true → s.workers.stopping = true)
    (hidles : ∀ i, r.idles i = true → s.idles i = true ∨ ∃ w, b = .start w i)
    (hkept : ∀ i, s.idles i = true → r.idles i = true)
    (hstart : ∀ w i, b = .start w i → r.idles i = true ∧ s.workers.cstate i = none)
    (hyield : ∀ w kind c, b = .yield w .term → s.workers.phase w = .on kind c .executing →
      s.idles c = true → s.workers.stopping = true)
    (hleaves : ∀ w, s.workers.phase w ≠ .finished → s'.workers.phase w = .finished →
      s.workers.stopping = true) : Inv s' := by
  have hstep := workers_of_via hvia
  rw [hworkers] at hstep
  have heffect := workers_effect hstep
  obtain ⟨workers, -, rfl⟩ := Option.map_eq_some_iff.mp hvia
  refine ⟨fun c hc hterm => ?_, fun c hc => heffect.stopping (htold c hc), fun w i hi => ?_,
    fun w hw' => ?_⟩
  · refine heffect.stopping ?_
    rcases heffect.term c hterm with hold | ⟨w, kind, rfl, hpc⟩
    · rcases hidles c hc with hc | ⟨w, hb⟩
      · exact h.term c hc hold
      · rw [(hstart w c hb).2] at hold
        cases hold
    · rcases hidles c hc with hc | ⟨w', hb⟩
      · exact hyield w kind c rfl hpc hc
      · cases hb
  · rcases heffect.idle w i hi with hi | hb
    · exact hkept i (h.idle w i hi)
    · exact (hstart w i hb).1
  · refine heffect.stopping ?_
    by_cases hw : s.workers.phase w = .finished
    · exact h.finished w hw
    · exact hleaves w hw hw'

/-- A worker that leaves has seen `m_stopping` set, or its idle coroutine has. -/
theorem Inv.leaves {s s' : State W C Cb} {a : Act W C Cb} (h : Inv s)
    (hstep : Step .ioManager s a s') (w : W) (hw : s.workers.phase w ≠ .finished)
    (hw' : s'.workers.phase w = .finished) : s.workers.stopping = true := by
  rcases leaves_cases hstep hw hw' with hstopping | ⟨-, i, hi, hterm⟩
  · exact stopping_of_stopping hstopping
  · exact h.term i (h.idle w i hi) hterm

/-- The workers take a step that makes no idle coroutine and ends none. -/
theorem Inv.viaSame {s r s' : State W C Cb} {a : Act W C Cb} {b : Workers.Act W C} (h : Inv s)
    (hstep : Step .ioManager s a s') (hvia : r.via b = some s')
    (hworkers : r.workers = s.workers) (hidles : r.idles = s.idles) (htold : r.told = s.told)
    (hstart : ∀ w i, b ≠ .start w i) (hyield : ∀ w, b ≠ .yield w .term) : Inv s' := by
  refine h.via hvia hworkers ?_ ?_ ?_ ?_ ?_ (h.leaves hstep)
  · rw [htold]
    exact h.told
  · rw [hidles]
    exact fun _ => Or.inl
  · rw [hidles]
    exact fun _ hi => hi
  · exact fun w i hb => absurd hb (hstart w i)
  · exact fun w _ _ hb => absurd hb (hyield w)

omit [DecidableEq W] in
/-- A coroutine was told to stop just now or before. -/
theorem told_of_update {s : State W C Cb} {c d : C} {v : Option Bool}
    (h : Function.update s.told c v d = some true) : v = some true ∨ s.told d = some true := by
  by_cases hdc : d = c
  · subst hdc
    rw [Function.update_self] at h
    exact Or.inl h
  · rw [Function.update_of_ne hdc] at h
    exact Or.inr h

/-- A new coroutine becomes the idle coroutine of a worker. -/
theorem Inv.start {s s' : State W C Cb} {u : W} {c : C} (h : Inv s)
    (hstep : Step .ioManager s (.plain (.start u c)) s')
    (hvia : (s.noteIdle (.start u c)).via (.start u c) = some s') : Inv s' := by
  have hfresh : s.workers.cstate c = none := by
    have hworkers := workers_of_via hvia
    simp only [Workers.step] at hworkers
    split at hworkers
    · rename_i hfree
      exact hfree.2
    · cases hworkers
  refine h.via hvia rfl h.told (fun i hi => ?_) (fun i hi => ?_) (fun w i hb => ?_)
    (by simp) (h.leaves hstep)
  · change Function.update s.idles c true i = true at hi
    by_cases hic : i = c
    · exact Or.inr ⟨u, hic ▸ rfl⟩
    · rw [Function.update_of_ne hic] at hi
      exact Or.inl hi
  · change Function.update s.idles c true i = true
    by_cases hic : i = c
    · rw [hic, Function.update_self]
    · rwa [Function.update_of_ne hic]
  · cases hb
    exact ⟨Function.update_self .., hfresh⟩

/-- Every step keeps the invariant. -/
theorem inv_step {s s' : State W C Cb} {a : Act W C Cb} (h : Inv s)
    (hstep : Step .ioManager s a s') : Inv s' := by
  have hstep' := hstep
  unfold Step step at hstep'
  cases a with
  | loopTest u now =>
      dsimp only at hstep'
      split at hstep'
      · split at hstep'
        · exact h.viaSame hstep hstep' rfl rfl rfl (by simp) (by simp)
        · cases hstep'
          exact ⟨h.term, h.told, h.idle, h.finished⟩
      · cases hstep'
  | pick u fresh now =>
      dsimp only at hstep'
      split at hstep'
      · exact h.viaSame hstep hstep' rfl rfl rfl (by simp) (by simp)
      · cases hstep'
  | test u now => exact h.viaSame hstep hstep' rfl rfl rfl (by simp) (by simp)
  | idleTest u now =>
      dsimp only at hstep'
      split at hstep'
      · rename_i c hpc
        split at hstep'
        · cases hstep'
          refine ⟨h.term, fun d hd => ?_, h.idle, h.finished⟩
          rcases told_of_update hd with hnow | hd
          · exact stopping_of_stopping (s := s) (Option.some.inj hnow)
          · exact h.told d hd
        · cases hstep'
      · cases hstep'
  | yield u wrote =>
      dsimp only at hstep'
      split at hstep'
      · rename_i k c hpc
        split at hstep'
        · split at hstep'
          · rename_i hwrites
            refine h.via hstep' rfl ?_ (fun _ => Or.inl) (fun _ hi => hi) (by simp) ?_
              (h.leaves hstep)
            · intro d hd
              rcases told_of_update hd with hnow | hd
              · cases hnow
              · exact h.told d hd
            · intro w kind d hb hpc' _
              cases hb
              rw [hpc] at hpc'
              cases hpc'
              -- only an idle coroutine that was told to stop writes `TERM`
              cases htold : s.told c with
              | none => simp [htold, idleWrites] at hwrites
              | some b =>
                  cases b with
                  | false => simp [htold, idleWrites] at hwrites
                  | true => exact h.told c htold
          · cases hstep'
        · rename_i hnot
          refine h.via hstep' rfl h.told (fun _ => Or.inl) (fun _ hi => hi) (by simp) ?_
            (h.leaves hstep)
          intro w kind d hb hpc' hidle
          cases hb
          rw [hpc] at hpc'
          cases hpc'
          exact absurd hidle hnot
      · cases hstep'
  | update u now =>
      dsimp only at hstep'
      split at hstep'
      · exact h.viaSame hstep hstep' rfl rfl rfl (by simp) (by simp)
      · exact h.viaSame hstep hstep' rfl rfl rfl (by simp) (by simp)
  | plain b =>
      dsimp only at hstep'
      split at hstep'
      · rename_i hplain
        cases b with
        | start u c => exact h.start hstep hstep'
        | yield w wrote => cases hplain
        | _ => exact h.viaSame hstep hstep' rfl rfl rfl (by simp) (by simp)
      · cases hstep'
  | timers call =>
      obtain ⟨r, -, rfl⟩ := Option.map_eq_some_iff.mp hstep'
      exact ⟨h.term, h.told, h.idle, h.finished⟩
  | setPending n =>
      cases hstep'
      exact ⟨h.term, h.told, h.idle, h.finished⟩

/-- **An `IOManager` keeps its workers.**  In every run of an `IOManager`, whatever tasks,
timers and events come in, no worker has left `run` while `stop` has not been called. -/
theorem ioManager_keeps_workers {idleFlag : Bool} {now : UInt64} {s : State W C Cb}
    (h : Reachable (· = start idleFlag now) (Step .ioManager) s) (w : W)
    (hw : s.workers.phase w = .finished) : s.workers.stopping = true := by
  have hinv : Inv s := by
    refine h.invariant (I := Inv) ?_ ?_
    · intro s hs
      subst hs
      exact inv_start idleFlag now
    · intro s a s' hs _ hstep
      exact inv_step hs hstep
  exact hinv.finished w hw

end Outlive

end Shutdown

end Agent
