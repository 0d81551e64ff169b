import GServer.Hook
import Mathlib

/-!
# Draining the eventfd

A result of `epoll_wait` is for the eventfd or for a context.  For the eventfd
`idle` reads until `read` returns zero; it is the hooked `read`, which asks
`FdManager` about the descriptor first.  An eventfd is not a socket, so the result
of the raw call is passed on: 8 if the counter was positive, and -1 if it was
zero.  Neither of them ends the loop.
-/

namespace Agent

namespace Eventfd

open Hook

/-- The worker in `idle`: the registrations, what its hooked calls look at, and the
counter of `m_eventfd`. -/
structure Worker (S Co Cb : Type) where
  manager : IOManager S Co Cb
  fds : FdManager
  hooked : Bool
  eventfd : Int
  counter : Nat

/-- A result of `epoll_wait`. -/
inductive Ready
  | eventfd
  | context (e : EpollEvent)

/-- How a hooked `read` of the eventfd ends: it returns, `do_io` would wait for the
descriptor, or `FdManager` leaves its vector. -/
inductive ReadEnd
  | returned (n : Int)
  | waits
  | outOfRange
deriving DecidableEq

/-- Where the loop is after a number of reads: still reading, past its end, or not
going on. -/
inductive Progress (W : Type)
  | reading (w : W)
  | left (w : W)
  | stopped

/-- How the loop over the batch ends within a number of reads for each result. -/
inductive Outcome (W : Type)
  | reading (w : W) (rest : List Ready)
  | done (w : W)
  | stopped

variable {S Co Cb : Type}

/-- A `read` of 8 bytes from a non-blocking eventfd: the return value, `errno` and the
counter it leaves. -/
def rawRead (counter : Nat) : Int × Errno × Nat :=
  if counter = 0 then (-1, .eagain, 0) else (8, .none, 0)

/-- The call of `do_io` for the eventfd. -/
def eventfdIo (eventfd : Int) : DoIo Unit :=
  { fd := fun _ => eventfd, event := fun _ => .read }

/-- The hooked `read` of the eventfd; `fstat` says that it is no socket. -/
def Worker.read (w : Worker S Co Cb) : ReadEnd × Worker S Co Cb :=
  match checks (eventfdIo w.eventfd) w.fds () w.hooked .other with
  | none => (.outOfRange, w)
  | some (phase, _, fds) =>
      let r := rawRead w.counter
      match phase with
      | .returned n _ => (.returned n, { w with fds := fds })
      | .passing => (.returned r.1, { w with fds := fds, counter := r.2.2 })
      | _ =>
          -- a descriptor known as a blocking socket
          match afterRaw r.1 r.2.1 with
          | .returned n _ => (.returned n, { w with fds := fds, counter := r.2.2 })
          | _ => (.waits, { w with fds := fds, counter := r.2.2 })

/-- `while(read(m_eventfd, &val, sizeof(val)));` for a number of reads. -/
def drain (w : Worker S Co Cb) : Nat → Progress (Worker S Co Cb)
  | 0 => .reading w
  | reads + 1 =>
      match w.read with
      | (.returned n, w) => if n = 0 then .left w else drain w reads
      | _ => .stopped

/-- The loop over the results. -/
def handleAll (reads : Nat) (w : Worker S Co Cb) : List Ready → Outcome (Worker S Co Cb)
  | [] => .done w
  | .eventfd :: rest =>
      match drain w reads with
      | .reading w => .reading w rest
      | .left w => handleAll reads w rest
      | .stopped => .stopped
  | .context e :: rest =>
      match w.manager.handleEvent e with
      | .error _ => .stopped
      | .ok r => handleAll reads { w with manager := r.manager } rest

/-- Some number of reads is enough, and the whole batch is handled. -/
def Drains (w : Worker S Co Cb) (batch : List Ready) : Prop :=
  ∃ reads w', handleAll reads w batch = .done w'

/-- The hooked `read` passes the result of the raw call on. -/
def Passes (w : Worker S Co Cb) : Prop :=
  ∃ timeout fds,
    checks (eventfdIo w.eventfd) w.fds () w.hooked .other = some (.passing, timeout, fds)

/-! ## The checks -/

/-- A lookup that makes a context finds it the next time. -/
theorem get_created {m : FdManager} {fd : Int} {stat : FdStat} {v : Option FdCtxPtr}
    (hlt : fd < m.intSize) (hslot : FdManager.slot? m.datas fd = some v) :
    let m' : FdManager := { datas := m.datas.set fd.toNat (some m.contexts.length)
                            contexts := m.contexts ++ [FdCtx.new fd stat] }
    m'.get fd false stat = some (some m.contexts.length, m') := by
  intro m'
  have h0 : 0 ≤ fd := by
    by_contra hneg
    simp [FdManager.slot?, hneg] at hslot
  have hstored : m'.stored fd = some m.contexts.length := by
    have hne : FdManager.slot? m.datas fd ≠ none := by
      simp [hslot]
    refine (FdManager.slot?_set h0 hne).trans ?_
    exact Function.update_self fd _ _
  have hlength : m'.datas.length = m.datas.length := List.length_set
  have hsize : m'.intSize = m.intSize := by
    unfold FdManager.intSize
    rw [hlength]
  rw [(FdManager.get_false_iff h0).mpr, hstored]
  simp [hstored, hsize, hlt]

/-- A lookup without creation that returns returns the same again. -/
theorem get_again {m m' : FdManager} {fd : Int} {stat : FdStat} {p : Option FdCtxPtr}
    (h : m.get fd false stat = some (p, m')) : m'.get fd false stat = some (p, m') := by
  have hrun := h
  unfold FdManager.get at hrun
  cases hfind : m.find fd false with
  | none => simp [hfind] at hrun
  | some found =>
      cases found with
      | null =>
          obtain ⟨-, rfl⟩ : none = p ∧ m = m' := by simpa [hfind] using hrun
          exact h
      | ctx q =>
          obtain ⟨-, rfl⟩ : some q = p ∧ m = m' := by simpa [hfind] using hrun
          exact h
      | create =>
          have hlt : fd < m.intSize := by
            unfold FdManager.find at hfind
            split at hfind
            · cases hfind
            · split at hfind
              · simp at hfind
              · rename_i hlt
                omega
          cases hslot : FdManager.slot? m.datas fd with
          | none => simp [hfind, FdManager.create, hslot] at hrun
          | some v =>
              obtain ⟨rfl, rfl⟩ : some m.contexts.length = p ∧
                  { datas := m.datas.set fd.toNat (some m.contexts.length)
                    contexts := m.contexts ++ [FdCtx.new fd stat] } = m' := by
                simpa [hfind, FdManager.create, hslot] using hrun
              exact get_created hlt hslot

/-- `do_io` passes the call on, makes it itself, or returns -1 for a closed descriptor. -/
theorem checks_phase {C : Type} {io : DoIo C} {fds fds' : FdManager} {c : C} {hooked : Bool}
    {stat : FdStat} {phase : Phase} {timeout : Nat}
    (h : checks io fds c hooked stat = some (phase, timeout, fds')) :
    phase = .passing ∨ phase = .calling ∨ phase = .returned (-1) .ebadf := by
  unfold checks at h
  split at h
  · simp_all
  · split at h
    · cases h
    · simp_all
    · split at h
      · cases h
      · split at h
        · simp_all
        · split at h <;> simp_all

/-- The checks come to the same when they are made again. -/
theorem checks_again {C : Type} {io : DoIo C} {fds fds' : FdManager} {c : C} {hooked : Bool}
    {stat : FdStat} {phase : Phase} {timeout : Nat}
    (h : checks io fds c hooked stat = some (phase, timeout, fds')) :
    checks io fds' c hooked stat = some (phase, timeout, fds') := by
  have hrun := h
  unfold checks at hrun
  cases hooked with
  | false =>
      obtain ⟨-, -, rfl⟩ : Phase.passing = phase ∧ unlimited = timeout ∧ fds = fds' := by
        simpa using hrun
      exact h
  | true =>
      cases hget : fds.get (io.fd c) false stat with
      | none => simp [hget] at hrun
      | some r =>
          obtain ⟨p, m⟩ := r
          have hsame : m = fds' := by
            cases p with
            | none => simp_all
            | some p =>
                cases hctx : m.contexts[p]? with
                | none => simp [hget, hctx] at hrun
                | some ctx =>
                    simp only [hget, hctx, Bool.true_eq_false, if_false] at hrun
                    split at hrun
                    · simp_all
                    · split at hrun <;> simp_all
          subst hsame
          rw [← h]
          unfold checks
          rw [hget, get_again hget, if_neg Bool.noConfusion, if_neg Bool.noConfusion]

/-! ## The reads -/

/-- A read of the `eventfd` never returns 0. -/
theorem rawRead_ne_zero (counter : Nat) : (rawRead counter).1 ≠ 0 := by
  unfold rawRead
  split <;> decide

/-- **No read returns zero.** -/
theorem read_ne_zero (w : Worker S Co Cb) : w.read.1 ≠ .returned 0 := by
  unfold Worker.read
  cases hchecks : checks (eventfdIo w.eventfd) w.fds () w.hooked .other with
  | none => simp
  | some r =>
      obtain ⟨phase, timeout, fds⟩ := r
      have hraw := rawRead_ne_zero w.counter
      rcases checks_phase hchecks with rfl | rfl | rfl
      · simpa using hraw
      · by_cases hzero : w.counter = 0 <;> simp [rawRead, hzero, afterRaw]
      · simp

/-- A read whose result is passed on changes the counter and the descriptor table. -/
theorem read_of_passes {w : Worker S Co Cb} (h : Passes w) :
    ∃ n w', w.read = (.returned n, w') ∧ n ≠ 0 ∧ w'.manager = w.manager ∧ Passes w' := by
  obtain ⟨timeout, fds, hchecks⟩ := h
  refine ⟨(rawRead w.counter).1, { w with fds := fds, counter := (rawRead w.counter).2.2 }, ?_,
    rawRead_ne_zero w.counter, rfl, timeout, fds, checks_again hchecks⟩
  simp only [Worker.read, hchecks]

/-- **The loop keeps reading.**  No number of reads brings the worker any further in its
batch. -/
theorem drain_reading {w : Worker S Co Cb} (h : Passes w) (reads : Nat) :
    ∃ w', drain w reads = .reading w' ∧ w'.manager = w.manager := by
  induction reads generalizing w with
  | zero => exact ⟨w, rfl, rfl⟩
  | succ reads ih =>
      obtain ⟨n, w₁, hread, hne, hsame, hpasses⟩ := read_of_passes h
      obtain ⟨w', hdrain, hsame'⟩ := ih hpasses
      refine ⟨w', ?_, hsame'.trans hsame⟩
      simp only [drain, hread, if_neg hne, hdrain]

/-- The loop is never left. -/
theorem drain_ne_left (w w' : Worker S Co Cb) (reads : Nat) : drain w reads ≠ .left w' := by
  induction reads generalizing w with
  | zero => simp [drain]
  | succ reads ih =>
      have hne := read_ne_zero w
      cases hread : w.read with
      | mk res w₁ =>
          cases res with
          | returned n =>
              have hn : n ≠ 0 := fun heq => hne (by rw [hread, heq])
              simpa only [drain, hread, if_neg hn] using ih w₁
          | waits => simp [drain, hread]
          | outOfRange => simp [drain, hread]

/-- The `read` of an eventfd that `FdManager` does not know is passed on: the context
that the lookup makes for it is not one of a socket. -/
theorem passes_of_unmanaged {w : Worker S Co Cb} (h0 : 0 ≤ w.eventfd)
    (hnone : w.fds.stored w.eventfd = none) : Passes w := by
  unfold Passes checks
  cases hhooked : w.hooked with
  | false => exact ⟨unlimited, w.fds, by simp⟩
  | true =>
      by_cases hlt : w.eventfd < w.fds.intSize
      · have hne : w.eventfd ≠ -1 := by omega
        have hslot := FdManager.slot?_of_lt_intSize h0 hlt
        rw [hnone] at hslot
        let fds : FdManager :=
          { datas := w.fds.datas.set w.eventfd.toNat (some w.fds.contexts.length)
            contexts := w.fds.contexts ++ [FdCtx.new w.eventfd .other] }
        have hget : w.fds.get w.eventfd false .other =
            some (some w.fds.contexts.length, fds) := by
          simp [FdManager.get, FdManager.find, FdManager.create, hne, hslot, not_le.mpr hlt, fds]
        have hctx : fds.contexts[w.fds.contexts.length]? = some (FdCtx.new w.eventfd .other) :=
          List.getElem?_concat_length
        refine ⟨unlimited, fds, ?_⟩
        simp only [eventfdIo, hget, hctx]
        rfl
      · have hget : w.fds.get w.eventfd false .other = some (none, w.fds) := by
          rw [← hnone]
          exact (FdManager.get_false_iff h0).mpr (iff_of_false (fun hne => hne hnone) hlt)
        exact ⟨unlimited, w.fds, by simp [eventfdIo, hget]⟩

/-! ## The batch -/

/-- Once it has come to the eventfd, the worker goes on reading. -/
theorem handleAll_reading {w : Worker S Co Cb} (h : Passes w) (reads : Nat)
    (rest : List Ready) :
    ∃ w', handleAll reads w (.eventfd :: rest) = .reading w' rest ∧ w'.manager = w.manager := by
  obtain ⟨w', hdrain, hsame⟩ := drain_reading h reads
  exact ⟨w', by simp only [handleAll, hdrain], hsame⟩

/-- **Draining.**  A worker whose batch reports the eventfd does not get to the end of the
batch with any number of reads, whatever the counter is. -/
theorem not_drains_of_reported {w : Worker S Co Cb} {batch : List Ready}
    (hreported : Ready.eventfd ∈ batch) : ¬ Drains w batch := by
  rintro ⟨reads, w', hdone⟩
  induction batch generalizing w with
  | nil => cases hreported
  | cons ready rest ih =>
      cases ready with
      | eventfd =>
          unfold handleAll at hdone
          cases hdrain : drain w reads with
          | reading w₁ => simp [hdrain] at hdone
          | left w₁ => exact drain_ne_left w w₁ reads hdrain
          | stopped => simp [hdrain] at hdone
      | context e =>
          have hrest : Ready.eventfd ∈ rest := by simpa using hreported
          unfold handleAll at hdone
          cases hhandle : w.manager.handleEvent e with
          | error crash => simp [hhandle] at hdone
          | ok r =>
              simp only [hhandle] at hdone
              exact ih hrest hdone

/-- A hooked worker with eventfd 4, whose counter is 1. -/
def tickled : Worker Unit Nat Nat :=
  { manager := .new, fds := .new, hooked := true, eventfd := 4, counter := 1 }

/-- Nothing after the eventfd is handled. -/
theorem not_drains_tickled :
    ¬ Drains tickled [.eventfd, .context ⟨9, true, false, false, false⟩] :=
  not_drains_of_reported List.mem_cons_self

/-- After any number of reads the worker has all of the batch behind the eventfd before
it. -/
theorem tickled_reads_for_ever :
    (∀ reads, ∃ w', handleAll reads tickled
        [.eventfd, .context ⟨9, true, false, false, false⟩] =
      .reading w' [.context ⟨9, true, false, false, false⟩]) ∧
    ¬ Drains tickled [.eventfd, .context ⟨9, true, false, false, false⟩] := by
  have hpasses : Passes tickled := passes_of_unmanaged (by decide) (by decide)
  have hreading := fun reads => handleAll_reading hpasses reads
    [.context ⟨9, true, false, false, false⟩]
  constructor
  · intro reads
    obtain ⟨w', hrun, -⟩ := hreading reads
    exact ⟨w', hrun⟩
  · rintro ⟨reads, w', hdone⟩
    obtain ⟨w₁, hrun, -⟩ := hreading reads
    rw [hrun] at hdone
    cases hdone

end Eventfd

end Agent
