import GServer.SchedulerWorkers

/-!
# Workers that take free coroutines only

`Inv` gives every coroutine to one worker at most and fixes its state by the
worker's stage.  It is kept by every step that meets `TakesFree`, and it says
what `Sound` asks for.  The last section shows what happens without the
condition, with two workers and one coroutine.
-/

namespace Agent

open Runs

namespace Workers

variable {W C : Type}

/-! ## The invariant -/

/-- A coroutine belongs to one worker at most; its state is what the worker's
stage says; and a coroutine that no worker has is not `EXEC`, except for the
idle coroutine of a worker that has left `run`. -/
structure Inv (s : State W C) : Prop where
  alone : ∀ w u c, (s.phase w).coroutine = some c → (s.phase u).coroutine = some c → w = u
  created : ∀ w c, (s.phase w).coroutine = some c → s.cstate c ≠ none
  idleCreated : ∀ w c, s.idle w = some c → s.cstate c ≠ none
  idleOwner : ∀ w u c, s.idle w = some c → s.idle u = some c → w = u
  idleKind : ∀ w c stage, s.phase w = .on .idle c stage → s.idle w = some c
  stage : ∀ w kind c stage, s.phase w = .on kind c stage → stage.Sound (s.cstate c)
  free : ∀ c, (∀ w, (s.phase w).coroutine ≠ some c) → s.cstate c = some .exec →
    ∃ w, s.phase w = .finished ∧ s.idle w = some c
  queued : ∀ x ∈ s.queue, ∀ c, x.coroutine = some c → s.cstate c ≠ none

/-- The invariant says what is claimed of the system. -/
theorem Inv.sound {s : State W C} (h : Inv s) : Sound s where
  alone w u kind kind' c stage stage' hw _ hu _ :=
    h.alone w u c (by simp [hw, Phase.coroutine]) (by simp [hu, Phase.coroutine])
  assertion w kind c hw := h.stage w kind c _ hw
  executing w kind c hw := h.stage w kind c _ hw
  leaving w kind c wrote hw := h.stage w kind c _ hw

/-- No worker has begun. -/
theorem inv_start : Inv (start : State W C) where
  alone w _ c hw := by simp [start, Phase.coroutine] at hw
  created w c hw := by simp [start, Phase.coroutine] at hw
  idleCreated w c hw := by simp [start] at hw
  idleOwner w _ c hw := by simp [start] at hw
  idleKind w c stage hw := by simp [start] at hw
  stage w kind c stage hw := by simp [start] at hw
  free c _ hc := by simp [start] at hc
  queued x hx := by simp [start] at hx

/-- The queue and the flag may change as long as the entries' coroutines exist. -/
theorem Inv.withQueue {s s' : State W C} (h : Inv s) (hcstate : s'.cstate = s.cstate)
    (hidle : s'.idle = s.idle) (hphase : s'.phase = s.phase)
    (hqueue : ∀ x ∈ s'.queue, x ∈ s.queue ∨ ∀ c, x.coroutine = some c → s.cstate c ≠ none) :
    Inv s' := by
  obtain ⟨cstate, queue, stopping, idle, phase⟩ := s
  obtain ⟨cstate', queue', stopping', idle', phase'⟩ := s'
  subst hcstate hidle hphase
  refine ⟨h.alone, h.created, h.idleCreated, h.idleOwner, h.idleKind, h.stage, h.free, ?_⟩
  intro x hx
  rcases hqueue x hx with hx | hx
  · exact h.queued x hx
  · exact hx

variable [DecidableEq W]

section Set

variable {s : State W C} {w : W} {p : Phase C} {f : C → Option CoState}

/-- **One worker moves.**  The invariant is kept when worker `w` moves to `p`
while the states become `f`: only the states of the coroutines that `w` has
before or after may change, the coroutine it has afterwards is no other
worker's and is in the state of its stage, and one that it drops is not left
in `EXEC`. -/
theorem Inv.set (h : Inv s) (hlive : s.phase w ≠ .finished)
    (hwrite : ∀ c, (s.phase w).coroutine ≠ some c → p.coroutine ≠ some c →
      f c = s.cstate c)
    (hcreated : ∀ c, s.cstate c ≠ none → f c ≠ none)
    (hown : ∀ c, p.coroutine = some c →
      f c ≠ none ∧ ∀ u, u ≠ w → (s.phase u).coroutine ≠ some c)
    (hidle : ∀ c stage, p = .on .idle c stage → s.idle w = some c)
    (hstage : ∀ kind c stage, p = .on kind c stage → stage.Sound (f c))
    (hdrop : ∀ c, (s.phase w).coroutine = some c → p.coroutine ≠ some c →
      f c = some .exec → p = .finished ∧ s.idle w = some c) :
    Inv (s.set w p f) := by
  have hself : (s.set w p f).phase w = p := by simp [State.set]
  have hother : ∀ u, u ≠ w → (s.set w p f).phase u = s.phase u := fun u hu => by
    simp [State.set, Function.update_of_ne hu]
  -- the coroutine of another worker is neither the old nor the new one of `w`
  have hforeign : ∀ u c, u ≠ w → (s.phase u).coroutine = some c → f c = s.cstate c := by
    intro u c hu hc
    refine hwrite c (fun hw => hu (h.alone u w c hc hw)) (fun hp => ?_)
    exact (hown c hp).2 u hu hc
  refine ⟨fun u v c hu hv => ?_, fun u c hu => ?_, fun u c hu => hcreated c
    (h.idleCreated u c hu), h.idleOwner, fun u c stage hu => ?_,
    fun u kind c stage hu => ?_, fun c hfree hexec => ?_,
    fun x hx c hc => hcreated c (h.queued x hx c hc)⟩
  · by_cases hw : u = w
    · subst hw
      by_contra hne
      rw [hself] at hu
      rw [hother v (Ne.symm hne)] at hv
      exact (hown c hu).2 v (Ne.symm hne) hv
    · rw [hother u hw] at hu
      by_cases hw' : v = w
      · subst hw'
        rw [hself] at hv
        exact absurd hu ((hown c hv).2 u hw)
      · rw [hother v hw'] at hv
        exact h.alone u v c hu hv
  · by_cases hw : u = w
    · subst hw
      rw [hself] at hu
      exact (hown c hu).1
    · rw [hother u hw] at hu
      exact hcreated c (h.created u c hu)
  · by_cases hw : u = w
    · subst hw
      rw [hself] at hu
      exact hidle c stage hu
    · rw [hother u hw] at hu
      exact h.idleKind u c stage hu
  · by_cases hw : u = w
    · subst hw
      rw [hself] at hu
      exact hstage kind c stage hu
    · rw [hother u hw] at hu
      change stage.Sound (f c)
      rw [hforeign u c hw (by simp [hu, Phase.coroutine])]
      exact h.stage u kind c stage hu
  · have hp : p.coroutine ≠ some c := hself ▸ hfree w
    by_cases hw : (s.phase w).coroutine = some c
    · obtain ⟨rfl, hi⟩ := hdrop c hw hp hexec
      exact ⟨w, hself, hi⟩
    · have hfree' : ∀ u, (s.phase u).coroutine ≠ some c := by
        intro u
        by_cases huw : u = w
        · exact huw ▸ hw
        · exact hother u huw ▸ hfree u
      obtain ⟨u, hu, hi⟩ := h.free c hfree' ((hwrite c hw hp).symm.trans hexec)
      have huw : u ≠ w := fun heq => hlive (heq ▸ hu)
      exact ⟨u, (hother u huw).trans hu, hi⟩

/-- A worker goes on with its coroutine. -/
theorem Inv.advance (h : Inv s) {kind : Kind} {c : C} {stage stage' : Stage}
    (hw : s.phase w = .on kind c stage) (hwrite : ∀ d, d ≠ c → f d = s.cstate d)
    (hc : f c ≠ none) (hstage : stage'.Sound (f c)) :
    Inv (s.set w (.on kind c stage') f) := by
  have hhas : (s.phase w).coroutine = some c := by simp [hw, Phase.coroutine]
  refine h.set (by simp [hw]) (fun d hd _ => hwrite d fun hdc => hd (hdc ▸ hhas))
    (fun d hd => ?_) (fun d hd => ?_) (fun d st hd => ?_) (fun k d st hd => ?_)
    (fun d hd hd' => ?_)
  · by_cases hdc : d = c
    · exact hdc ▸ hc
    · rwa [hwrite d hdc]
  · obtain rfl : c = d := by simpa [Phase.coroutine] using hd
    exact ⟨hc, fun u hu hcu => hu (h.alone u w c hcu hhas)⟩
  · cases hd
    exact h.idleKind w c stage hw
  · cases hd
    exact hstage
  · exact absurd (hhas.symm.trans hd) (by simpa [Phase.coroutine] using hd')

/-- A worker that has no coroutine takes up one that no other has. -/
theorem Inv.take (h : Inv s) {kind : Kind} {c : C} {stage : Stage}
    (hlive : s.phase w ≠ .finished)
    (hdrop : ∀ d, (s.phase w).coroutine = some d → s.cstate d ≠ some .exec)
    (hwrite : ∀ d, d ≠ c → f d = s.cstate d) (hc : f c ≠ none)
    (hfree : ∀ u, u ≠ w → (s.phase u).coroutine ≠ some c)
    (hidle : kind = .idle → s.idle w = some c) (hstage : stage.Sound (f c)) :
    Inv (s.set w (.on kind c stage) f) := by
  refine h.set hlive (fun d _ hd => hwrite d fun hdc => hd (by simp [hdc, Phase.coroutine]))
    (fun d hd => ?_) (fun d hd => ?_) (fun d st hd => ?_) (fun k d st hd => ?_)
    (fun d hd hd' hexec => ?_)
  · by_cases hdc : d = c
    · exact hdc ▸ hc
    · rwa [hwrite d hdc]
  · obtain rfl : c = d := by simpa [Phase.coroutine] using hd
    exact ⟨hc, hfree⟩
  · cases hd
    exact hidle rfl
  · cases hd
    exact hstage
  · have hdc : d ≠ c := fun heq => hd' (by simp [heq, Phase.coroutine])
    rw [hwrite d hdc] at hexec
    exact absurd hexec (hdrop d hd)

/-- A worker drops its coroutine, which is not left in `EXEC`. -/
theorem Inv.drop (h : Inv s) (hlive : s.phase w ≠ .finished)
    (hp : p.coroutine = none)
    (hwrite : ∀ d, (s.phase w).coroutine ≠ some d → f d = s.cstate d)
    (hcreated : ∀ d, s.cstate d ≠ none → f d ≠ none)
    (hdrop : ∀ d, (s.phase w).coroutine = some d → f d = some .exec →
      p = .finished ∧ s.idle w = some d) : Inv (s.set w p f) := by
  refine h.set hlive (fun d hd _ => hwrite d hd) hcreated (fun d hd => ?_)
    (fun d st hd => ?_) (fun k d st hd => ?_) (fun d hd _ => hdrop d hd)
  · simp [hp] at hd
  · simp [hd, Phase.coroutine] at hp
  · simp [hd, Phase.coroutine] at hp

end Set

/-! ## The steps -/

section Steps

variable {s s' : State W C} {w : W}

/-- What the pick takes from the queue. -/
theorem pickIndex_spec {i : Nat} (hi : s.pickIndex w = some i) :
    ∃ x, s.queue[i]? = some x ∧ x ∈ s.queue ∧ s.eligible w x = true := by
  obtain ⟨hlt, helig, -⟩ := List.findIdx?_eq_some_iff_getElem.mp hi
  exact ⟨s.queue[i], List.getElem?_eq_getElem hlt, List.getElem_mem hlt, helig⟩

variable [DecidableEq C]

/-- The idle branch takes up the worker's own idle coroutine. -/
theorem Inv.idleBranch (h : Inv s) (hlive : s.phase w ≠ .finished)
    (hdrop : ∀ d, (s.phase w).coroutine = some d → s.cstate d ≠ some .exec)
    (hfree : ∀ i, s.idle w = some i → ∀ u, u ≠ w → (s.phase u).coroutine ≠ some i)
    (hstep : s.idleBranch w = some s') : Inv s' := by
  unfold State.idleBranch at hstep
  cases hi : s.idle w with
  | none => simp [hi] at hstep
  | some i =>
      simp only [hi] at hstep
      split at hstep
      · obtain rfl := Option.some.inj hstep
        exact h.drop hlive rfl (fun _ _ => rfl) (fun _ => id)
          (fun d hd hexec => absurd hexec (hdrop d hd))
      · obtain rfl := Option.some.inj hstep
        refine h.take hlive hdrop (fun _ _ => rfl) (h.idleCreated w i hi) (hfree i hi)
          (fun _ => hi) (fun hexec => ?_)
        by_cases hw : (s.phase w).coroutine = some i
        · exact hdrop i hw hexec
        · have hnone : ∀ u, (s.phase u).coroutine ≠ some i := by
            intro u
            by_cases hu : u = w
            · exact hu ▸ hw
            · exact hfree i hi u hu
          obtain ⟨u, hu, hui⟩ := h.free i hnone hexec
          exact hlive (h.idleOwner u w i hui hi ▸ hu)

omit [DecidableEq W] [DecidableEq C] in
/-- The entry that is picked is not in the queue any more. -/
theorem Inv.eraseIdx (h : Inv s) (i : Nat) : Inv { s with queue := s.queue.eraseIdx i } :=
  h.withQueue rfl rfl rfl fun _ hy => Or.inl (List.mem_of_mem_eraseIdx hy)

omit [DecidableEq C] in
/-- A free coroutine is taken up. -/
theorem Inv.pickTask (h : Inv s) {fresh c : C} {i : Nat} {x : CoroutineAndThread W C}
    (hfree : TakesFree s (.pick w fresh)) (hw : s.phase w = .loop)
    (hi : s.pickIndex w = some i) (hx : s.queue[i]? = some x) (hc : x.coroutine = some c) :
    Inv ({ s with queue := s.queue.eraseIdx i }.set w (.on .task c .picked) s.cstate) := by
  obtain ⟨y, hy, hmem, helig⟩ := pickIndex_spec hi
  obtain rfl : x = y := Option.some.inj (hx.symm.trans hy)
  have hexec : s.cstate c ≠ some .exec := by
    simp only [State.eligible, hc, Bool.and_eq_true] at helig
    simpa using helig.2
  exact (h.eraseIdx i).take (by simp [hw]) (by simp [hw, Phase.coroutine]) (fun _ _ => rfl)
    (h.queued x hmem c hc) (fun u hu => hfree w c (by simp [takes, hi, hx, hc]) u hu) (by simp)
    hexec

/-- A callback is taken up with a new coroutine. -/
theorem Inv.pickCb (h : Inv s) {fresh : C} (i : Nat) (hw : s.phase w = .loop)
    (hnew : s.cstate fresh = none) :
    Inv ({ s with queue := s.queue.eraseIdx i }.set w (.on .cb fresh .entering)
      (Function.update s.cstate fresh (some .init))) := by
  refine (h.eraseIdx i).take (by simp [hw]) (by simp [hw, Phase.coroutine])
    (fun d hd => Function.update_of_ne hd _ _) (by simp)
    (fun u _ hu => h.created u fresh hu hnew) (by simp) ?_
  simp [Stage.Sound]

/-- A coroutine that has ended is dropped. -/
theorem Inv.testEnded (h : Inv s) {c : C} (hfree : TakesFree s (.test w))
    (hw : s.phase w = .on .task c .picked) (hended : CoState.ended (s.cstate c) = true)
    (hidle : s.idleBranch w = some s') : Inv s' := by
  refine h.idleBranch (by simp [hw]) (fun d hd => ?_)
    (fun i hi u hu => hfree w i (by simp [takes, hw, hended, hi]) u hu) hidle
  obtain rfl : c = d := by simpa [hw, Phase.coroutine] using hd
  exact h.stage w _ c _ hw

/-- Back at the head of the loop, the worker leaves its coroutine in a state
that is not `EXEC`. -/
theorem Inv.toLoop (h : Inv s) {kind : Kind} {c : C} {stage : Stage}
    {f : C → Option CoState} (hw : s.phase w = .on kind c stage)
    (hwrite : ∀ d, d ≠ c → f d = s.cstate d) (hc : f c ≠ none)
    (hexec : f c ≠ some .exec) : Inv (s.set w .loop f) := by
  have hhas : (s.phase w).coroutine = some c := by simp [hw, Phase.coroutine]
  refine h.drop (by simp [hw]) rfl (fun d hd => hwrite d fun hdc => hd (hdc ▸ hhas))
    (fun d hd => ?_) (fun d hd hexec' => ?_)
  · by_cases hdc : d = c
    · exact hdc ▸ hc
    · rwa [hwrite d hdc]
  · obtain rfl : c = d := Option.some.inj (hhas.symm.trans hd)
    exact absurd hexec' hexec

/-- What is done after a switch keeps the invariant. -/
theorem Inv.update (h : Inv s) {kind : Kind} {c : C} {stop : Bool}
    (hw : s.phase w = .on kind c .returned) : Inv (s.postSwap w kind c stop) := by
  have hcreated := h.created w c (by simp [hw, Phase.coroutine])
  have set : ∀ st, st ≠ CoState.exec →
      Inv (s.set w .loop (Function.update s.cstate c (some st))) := fun st hst =>
    h.toLoop hw (fun d hd => Function.update_of_ne hd _ _) (by simp) (by simpa using hst)
  have drop : s.cstate c ≠ some .exec → Inv (s.set w .loop s.cstate) := fun hexec =>
    h.toLoop hw (fun _ _ => rfl) hcreated hexec
  have requeue : s.cstate c = some .ready →
      Inv { s.set w .loop s.cstate with
        queue := s.queue ++ [{ coroutine := some c, cb := false, threadId := none }] } := by
    intro hready
    refine (drop (by simp [hready])).withQueue rfl rfl rfl fun x hx => ?_
    rcases List.mem_append.mp hx with hx | hx
    · exact Or.inl hx
    · obtain rfl := List.mem_singleton.mp hx
      refine Or.inr fun d hd => ?_
      obtain rfl : c = d := Option.some.inj hd
      exact hcreated
  have ended : CoState.ended (s.cstate c) = true → s.cstate c ≠ some .exec := by
    intro hended hexec
    simp [hexec, CoState.ended] at hended
  cases kind with
  | task =>
      simp only [State.postSwap]
      split
      · exact requeue ‹_›
      · split
        · exact drop (ended ‹_›)
        · exact set _ (by decide)
  | cb =>
      simp only [State.postSwap]
      split
      · exact requeue ‹_›
      · split
        · exact set _ (by decide)
        · exact set _ (by decide)
  | idle =>
      simp only [State.postSwap]
      split
      · exact h.drop (by simp [hw]) rfl (fun _ _ => rfl) (fun _ => id)
          (fun d hd _ => ⟨rfl, h.idleKind w d .returned (by
            obtain rfl : c = d := by simpa [hw, Phase.coroutine] using hd
            exact hw)⟩)
      · split
        · exact drop (ended ‹_›)
        · exact set _ (by decide)

omit [DecidableEq W] in
/-- A coroutine that is constructed belongs to no worker. -/
theorem Inv.create (h : Inv s) {c : C} (hnew : s.cstate c = none) :
    Inv { s with cstate := Function.update s.cstate c (some .init) } := by
  have hne : ∀ d, s.cstate d ≠ none → Function.update s.cstate c (some .init) d =
      s.cstate d := fun d hd => by
    have hdc : d ≠ c := by
      rintro rfl
      exact hd hnew
    exact Function.update_of_ne hdc _ _
  have hcreated : ∀ d, s.cstate d ≠ none →
      Function.update s.cstate c (some .init) d ≠ none := fun d hd => by rwa [hne d hd]
  refine ⟨h.alone, fun w d hd => hcreated d (h.created w d hd),
    fun w d hd => hcreated d (h.idleCreated w d hd), h.idleOwner, h.idleKind,
    fun w kind d stage hd => ?_, fun d hfree hexec => ?_,
    fun x hx d hd => hcreated d (h.queued x hx d hd)⟩
  · change stage.Sound (Function.update s.cstate c (some .init) d)
    have hw : s.phase w = .on kind d stage := hd
    rw [hne d (h.created w d (by simp [hw, Phase.coroutine]))]
    exact h.stage w kind d stage hw
  · by_cases hdc : d = c
    · subst hdc
      simp at hexec
    · exact h.free d hfree (by simpa [Function.update_of_ne hdc] using hexec)

/-- `run` begins with a new idle coroutine. -/
theorem Inv.begin (h : Inv s) {c : C} (hw : s.phase w = .outside)
    (hnew : s.cstate c = none) :
    Inv { s.set w .loop (Function.update s.cstate c (some .init)) with
      idle := Function.update s.idle w (some c) } := by
  have hmade : Inv (s.set w .loop (Function.update s.cstate c (some .init))) :=
    (h.create hnew).drop (by simp [hw]) rfl (fun _ _ => rfl) (fun _ => id)
      (by simp [hw, Phase.coroutine])
  have hself : (s.set w .loop (Function.update s.cstate c (some .init))).phase w = .loop := by
    simp [State.set]
  have hold : ∀ u, s.idle u ≠ some c := fun u hu => h.idleCreated u c hu hnew
  have hcases : ∀ u d, Function.update s.idle w (some c) u = some d →
      (u = w ∧ c = d) ∨ s.idle u = some d := by
    intro u d hu
    by_cases huw : u = w
    · subst huw
      exact Or.inl ⟨rfl, by simpa using hu⟩
    · exact Or.inr (by simpa [Function.update_of_ne huw] using hu)
  have hkeep : ∀ u d, u ≠ w → s.idle u = some d →
      Function.update s.idle w (some c) u = some d := fun u d huw hu => by
    rwa [Function.update_of_ne huw]
  refine ⟨hmade.alone, hmade.created, fun u d hu => ?_, fun u v d hu hv => ?_,
    fun u d stage hu => ?_, hmade.stage, fun d hfree hexec => ?_, hmade.queued⟩
  · rcases hcases u d hu with ⟨-, rfl⟩ | hu
    · simp [State.set]
    · exact hmade.idleCreated u d hu
  · rcases hcases u d hu with ⟨rfl, rfl⟩ | hu'
    · rcases hcases v c hv with ⟨rfl, -⟩ | hv'
      · rfl
      · exact absurd hv' (hold v)
    · rcases hcases v d hv with ⟨rfl, rfl⟩ | hv'
      · exact absurd hu' (hold u)
      · exact h.idleOwner u v d hu' hv'
  · have huw : u ≠ w := by
      rintro rfl
      exact absurd (hself.symm.trans hu) (by simp)
    exact hkeep u d huw (hmade.idleKind u d stage hu)
  · obtain ⟨u, hu, hi⟩ := hmade.free d hfree hexec
    have huw : u ≠ w := by
      rintro rfl
      exact absurd (hself.symm.trans hu) (by simp)
    exact ⟨u, hu, hkeep u d huw hi⟩

/-- Every step that takes a free coroutine keeps the invariant. -/
theorem step_inv (h : Inv s) {a : Act W C} (hfree : TakesFree s a)
    (hstep : Step s a s') : Inv s' := by
  cases turn_of_step hstep with
  | create hnew => exact h.create hnew
  | @schedule x hmade =>
      refine h.withQueue rfl rfl rfl fun y hy => ?_
      dsimp only at hy
      split at hy
      · rcases List.mem_append.mp hy with hy | hy
        · exact Or.inl hy
        · obtain rfl := List.mem_singleton.mp hy
          refine Or.inr fun c hc => ?_
          simpa [hc, Option.isSome_iff_ne_none] using hmade
      · exact Or.inl hy
  | stop => exact h.withQueue rfl rfl rfl fun x hx => Or.inl hx
  | start hw hnew => exact h.begin hw hnew
  | exit hw =>
      exact h.drop (by simp [hw]) rfl (fun _ _ => rfl) (fun _ => id)
        (by simp [hw, Phase.coroutine])
  | @pickNothing w _ _ hw hnone hidle =>
      exact h.idleBranch (by simp [hw]) (by simp [hw, Phase.coroutine])
        (fun i hi u hu => hfree w i (by simp [takes, hnone, hi]) u hu) hidle
  | pickTask hw hi hx hc => exact h.pickTask hfree hw hi hx hc
  | pickCb hw _ _ _ hnew => exact h.pickCb _ hw hnew
  | testEnded hw hended hidle => exact h.testEnded hfree hw hended hidle
  | @testLive w c hw =>
      have hsound : s.cstate c ≠ some .exec := h.stage w _ c _ hw
      exact h.advance hw (fun _ _ => rfl) (h.created w c (by simp [hw, Phase.coroutine]))
        hsound
  | swapIn hw =>
      exact h.advance hw (fun d hd => Function.update_of_ne hd _ _) (by simp)
        (by simp [Stage.Sound])
  | yield hw =>
      exact h.advance hw (fun d hd => Function.update_of_ne hd _ _) (by simp)
        (by simp [Stage.Sound])
  | @swapOut w _ c _ hw =>
      exact h.advance hw (fun _ _ => rfl) (h.created w c (by simp [hw, Phase.coroutine])) trivial
  | update hw => exact h.update hw

end Steps

section Runs

variable [DecidableEq C]

/-- **One worker per coroutine.**  In every run in which a worker never takes up
a coroutine that another worker still has, no coroutine is on two workers'
stacks, the assertion of `swapIn` holds, and an executing coroutine is in the
state `EXEC`. -/
theorem reachable_sound {s : State W C}
    (h : ReachableUnder (· = start) Step TakesFree s) : Sound s :=
  (h.invariant (fun _ h0 => h0 ▸ inv_start)
    (fun _ _ _ hinv hfree hstep => step_inv hinv hfree hstep)).sound

end Runs

/-- Coroutine 0 is scheduled; worker `false` picks it and resumes it. -/
def resumes : List (Act Bool Nat) :=
  [.create 0, .start false 1, .start true 2, .schedule ⟨some 0, false, none⟩,
    .pick false 3, .test false, .swapIn false]

/-- An event schedules coroutine 0 before it yields; worker `true` resumes it
before the context is saved, and the update of worker `false` makes it look
suspended once more. -/
def resumesTwice : List (Act Bool Nat) :=
  resumes ++
    [.schedule ⟨some 0, false, none⟩, .yield false .hold,
      .pick true 3, .test true, .swapIn true,
      .swapOut false, .update false false,
      .schedule ⟨some 0, false, none⟩, .pick false 3, .test false, .swapIn false]

/-- Both workers execute coroutine 0. -/
theorem two_workers_execute_one_coroutine :
    ¬ ∀ s : State Bool Nat, Reachable (· = start) Step s → Sound s := by
  intro hsound
  obtain ⟨s, hreach, hphases⟩ : ∃ s : State Bool Nat, Reachable (· = start) Step s ∧
      (s.phase false, s.phase true) = (.on .task 0 .executing, .on .task 0 .executing) :=
    exists_view rfl (fun _ _ _ h => ⟨trivial, h⟩) resumesTwice (by decide)
  obtain ⟨hfalse, htrue⟩ := Prod.mk.injEq .. ▸ hphases
  have := (hsound s hreach).alone false true _ _ 0 _ _ hfalse trivial htrue trivial
  exact absurd this (by decide)

/-- The run of `resumes` takes free coroutines only. -/
theorem reachable_sound_of_resumes :
    ∃ s : State Bool Nat, ReachableUnder (· = start) Step TakesFree s ∧
      s.phase false = .on .task 0 .executing ∧ Sound s := by
  obtain ⟨s, hreach, hphase⟩ : ∃ s : State Bool Nat,
      ReachableUnder (· = start) Step TakesFree s ∧ s.phase false = .on .task 0 .executing :=
    exists_guarded_view rfl (fun _ _ _ h => h) resumes (by decide)
  exact ⟨s, hreach, hphase, reachable_sound hreach⟩

end Workers

end Agent
