import GServer.Library.Runs
import Mathlib.Logic.Function.Basic

/-!
# Start and stop of a server

`TcpServer::start`, `TcpServer::stop`, the loops of `startAccept` and the lambda that
`stop` posts take their steps in any order.  What an `accept` returns does not matter to
its loop and is left out.

`stop` writes `m_isStop = false`, so that no loop ever sees that the server has stopped.
`TcpServer.lawful_iff_no_stop` says that a run keeps to the law exactly when it has no
`stop`, `TcpServer.loops_never_return` that no loop ever ends, and `TcpServer.accept_spins`
that a loop on a closed socket calls `accept` without end.
-/

namespace Agent

open Runs

namespace TcpServer

/-- Where a loop of `startAccept` is. -/
inductive Pc
  | testing
  | accepting
  | returned
deriving DecidableEq

/-- A loop on a socket, and how many `accept` calls it has begun on it since it was
closed. -/
structure Loop (S : Type) where
  sock : S
  pc : Pc
  late : Nat

/-- The lambda of one `stop`: it has been posted, or has these sockets left to close. -/
inductive Lambda (S : Type)
  | posted
  | closing (rest : List S)

/-- The server, its loops and lambdas.  `startCalled` says that `start` has been called,
`stopped` that `stop` has been called after the last `start` that had an effect. -/
structure State (S : Type) where
  m_isStop : Bool
  m_socks : List S
  closed : S → Bool
  loops : List (Loop S)
  lambdas : List (Lambda S)
  startCalled : Bool
  stopped : Bool

/-- A call from outside, a step of the lambda at a position or one of the loop there. -/
inductive Act
  | start
  | stop
  | lambda (i : Nat)
  | turn (i : Nat)
deriving DecidableEq

variable {S : Type}

/-- A server with its bound sockets. -/
def bound (socks : List S) : State S where
  m_isStop := true
  m_socks := socks
  closed := fun _ => false
  loops := []
  lambdas := []
  startCalled := false
  stopped := false

/-- `start`. -/
def start (s : State S) : State S :=
  if s.m_isStop = false then { s with startCalled := true }
  else
    { s with
      m_isStop := false
      loops := s.loops ++ s.m_socks.map fun sock => ⟨sock, .testing, 0⟩
      startCalled := true
      stopped := false }

/-- `stop`. -/
def stop (s : State S) : State S :=
  { s with
    m_isStop := false
    lambdas := s.lambdas ++ [.posted]
    stopped := true }

/-- The next step of a loop: the test of the flag, or the return of `accept`. -/
def Loop.turn (s : State S) (l : Loop S) : Option (Loop S) :=
  match l.pc with
  | .testing =>
      if s.m_isStop = true then some { l with pc := .returned }
      else some { l with pc := .accepting, late := l.late + (s.closed l.sock).toNat }
  | .accepting => some { l with pc := .testing }
  | .returned => none

variable [DecidableEq S]

/-- The next step of the lambda at `i`: `cancelAll` and `close` of one socket, or
`m_socks.clear()`. -/
def runLambda (s : State S) (i : Nat) : Lambda S → State S
  | .posted => { s with lambdas := s.lambdas.set i (.closing s.m_socks) }
  | .closing (sock :: rest) =>
      { s with
        closed := Function.update s.closed sock true
        lambdas := s.lambdas.set i (.closing rest) }
  | .closing [] => { s with m_socks := [], lambdas := s.lambdas.eraseIdx i }

/-- One step. -/
def step (s : State S) : Act → Option (State S)
  | .start => some (start s)
  | .stop => some (stop s)
  | .lambda i => (s.lambdas[i]?).map (runLambda s i)
  | .turn i => ((s.loops[i]?).bind (Loop.turn s)).map fun l => { s with loops := s.loops.set i l }

/-- The steps of a run. -/
def Step (s : State S) (a : Act) (s' : State S) : Prop :=
  step s a = some s'

/-- `isStop()` says whether the server is stopped, and no loop has begun more than one
`accept` on a socket that was closed. -/
structure Lawful (s : State S) : Prop where
  isStop : s.m_isStop = true ↔ s.startCalled = false ∨ s.stopped = true
  accepts : ∀ l ∈ s.loops, l.late ≤ 1

/-- The step leads to a lawful state. -/
def Agrees (s : State S) (a : Act) : Prop :=
  ∀ s', Step s a s' → Lawful s'

/-- The step is not a call of `stop`. -/
def NoStop (_ : State S) (a : Act) : Prop :=
  a ≠ .stop

/-! ## Runs without `stop` -/

/-- No lambda has been posted and no socket closed. -/
structure Running (s : State S) : Prop where
  isStop : s.m_isStop = !s.startCalled
  stopped : s.stopped = false
  lambdas : s.lambdas = []
  closed : ∀ sock, s.closed sock = false
  accepts : ∀ l ∈ s.loops, l.late = 0

omit [DecidableEq S] in
/-- A server that runs is lawful. -/
theorem Running.lawful {s : State S} (h : Running s) : Lawful s := by
  refine ⟨?_, fun l hl => by rw [h.accepts l hl]; exact Nat.zero_le 1⟩
  rw [h.isStop, h.stopped]
  simp

omit [DecidableEq S] in
/-- A server runs once it is bound. -/
theorem running_bound (socks : List S) : Running (bound socks) :=
  ⟨rfl, rfl, rfl, fun _ => rfl, fun l hl => by cases hl⟩

omit [DecidableEq S] in
/-- A server that runs goes on when it is started. -/
theorem running_start {s : State S} (h : Running s) : Running (start s) := by
  unfold start
  cases hflag : s.m_isStop with
  | false =>
      rw [if_pos rfl]
      exact ⟨rfl, h.stopped, h.lambdas, h.closed, h.accepts⟩
  | true =>
      rw [if_neg (by simp)]
      refine ⟨rfl, rfl, h.lambdas, h.closed, fun l hl => ?_⟩
      rcases List.mem_append.mp hl with hl | hl
      · exact h.accepts l hl
      · obtain ⟨sock, -, rfl⟩ := List.mem_map.mp hl
        rfl

omit [DecidableEq S] in
/-- A turn on an open socket begins no late `accept`. -/
theorem late_turn {s : State S} {l l' : Loop S} (hopen : s.closed l.sock = false)
    (hturn : l.turn s = some l') : l'.late = l.late := by
  unfold Loop.turn at hturn
  cases hpc : l.pc with
  | testing =>
      simp only [hpc, hopen] at hturn
      split at hturn
      · rw [← Option.some.inj hturn]
      · rw [← Option.some.inj hturn]
        rfl
  | accepting =>
      simp only [hpc] at hturn
      rw [← Option.some.inj hturn]
  | returned =>
      simp only [hpc] at hturn
      cases hturn

/-- Every step but `stop` keeps it running. -/
theorem running_step {s s' : State S} {a : Act} (h : Running s) (ha : a ≠ .stop)
    (hstep : Step s a s') : Running s' := by
  unfold Step at hstep
  cases a with
  | start =>
      rw [← Option.some.inj hstep]
      exact running_start h
  | stop => exact absurd rfl ha
  | lambda i => simp [step, h.lambdas] at hstep
  | turn i =>
      obtain ⟨l', hl', rfl⟩ := Option.map_eq_some_iff.mp hstep
      obtain ⟨l, hl, hturn⟩ := Option.bind_eq_some_iff.mp hl'
      have hzero : l'.late = 0 := by
        rw [late_turn (h.closed l.sock) hturn]
        exact h.accepts l (List.mem_of_getElem? hl)
      refine ⟨h.isStop, h.stopped, h.lambdas, h.closed, fun k hk => ?_⟩
      rcases List.mem_or_eq_of_mem_set hk with hk | rfl
      · exact h.accepts k hk
      · exact hzero

omit [DecidableEq S] in
/-- `stop` leaves the flag as it is while the server runs. -/
theorem not_lawful_stop (s : State S) : ¬ Lawful (stop s) := by
  intro h
  have htrue : (stop s).m_isStop = true := h.isStop.mpr (Or.inr rfl)
  cases htrue

/-- **The law of the server.**  For every server and every interleaving of `start`,
`stop`, the accept loops and the lambdas, `isStop()` is right and no loop begins a
second `accept` on a closed socket exactly when `stop` is never called. -/
theorem lawful_iff_no_stop (socks : List S) (acts : List Act) :
    Along Step Agrees (bound socks) acts ↔ Along Step NoStop (bound socks) acts := by
  refine along_iff_of_invariant (I := Running) (V := fun _ => True) (fun s a h _ => ?_)
    (fun s a s' h _ hguard hstep => running_step h hguard hstep) acts (bound socks)
    (running_bound socks) fun _ _ => trivial
  constructor
  · rintro hagrees rfl
    exact not_lawful_stop s (hagrees (stop s) rfl)
  · exact fun hguard s' hstep => (running_step h hguard hstep).lawful

/-! ## After `stop` -/

/-- While the flag is set there are no loops, and no loop has returned. -/
structure Spinning (s : State S) : Prop where
  idle : s.m_isStop = true → s.loops = []
  pending : ∀ l ∈ s.loops, l.pc ≠ .returned

omit [DecidableEq S] in
/-- A turn while the flag is false does not end the loop. -/
theorem pc_turn {s : State S} {l l' : Loop S} (hflag : s.m_isStop = false)
    (hturn : l.turn s = some l') : l'.pc ≠ .returned := by
  unfold Loop.turn at hturn
  cases hpc : l.pc with
  | testing =>
      simp only [hpc, hflag] at hturn
      rw [← Option.some.inj hturn]
      exact nofun
  | accepting =>
      simp only [hpc] at hturn
      rw [← Option.some.inj hturn]
      exact nofun
  | returned =>
      simp only [hpc] at hturn
      cases hturn

/-- A loop that spins goes on spinning. -/
theorem spinning_step {s s' : State S} {a : Act} (h : Spinning s) (hstep : Step s a s') :
    Spinning s' := by
  unfold Step at hstep
  cases a with
  | start =>
      rw [← Option.some.inj hstep, start]
      split
      · exact ⟨h.idle, h.pending⟩
      · rename_i hflag
        refine ⟨nofun, fun l hl => ?_⟩
        rw [h.idle (Bool.not_eq_false _ |>.mp hflag), List.nil_append] at hl
        obtain ⟨sock, -, rfl⟩ := List.mem_map.mp hl
        exact nofun
  | stop =>
      rw [← Option.some.inj hstep]
      exact ⟨nofun, h.pending⟩
  | lambda i =>
      obtain ⟨l, -, rfl⟩ := Option.map_eq_some_iff.mp hstep
      cases l with
      | posted => exact ⟨h.idle, h.pending⟩
      | closing rest =>
          cases rest with
          | nil => exact ⟨h.idle, h.pending⟩
          | cons sock rest => exact ⟨h.idle, h.pending⟩
  | turn i =>
      obtain ⟨l', hl', rfl⟩ := Option.map_eq_some_iff.mp hstep
      obtain ⟨l, hl, hturn⟩ := Option.bind_eq_some_iff.mp hl'
      have hflag : s.m_isStop = false := by
        cases hset : s.m_isStop with
        | false => rfl
        | true => simp [h.idle hset] at hl
      refine ⟨fun hset => ?_, fun k hk => ?_⟩
      · rw [hflag] at hset
        cases hset
      · rcases List.mem_or_eq_of_mem_set hk with hk | rfl
        · exact h.pending k hk
        · exact pc_turn hflag hturn

/-- **No loop ends.**  Whatever has been called, no loop of `startAccept` has returned. -/
theorem loops_never_return (socks : List S) {s : State S}
    (h : Reachable (· = bound socks) Step s) : ∀ l ∈ s.loops, l.pc ≠ .returned := by
  have hbound : ∀ s, s = bound socks → Spinning s := by
    rintro s rfl
    exact ⟨fun _ => rfl, nofun⟩
  have hspin : Spinning s :=
    h.invariant hbound fun _ _ _ hs _ hstep => spinning_step hs hstep
  exact hspin.pending

/-- Two turns of a loop that tests a closed socket: one more `accept`, and the test
again. -/
theorem two_turns {s : State S} {i : Nat} {l : Loop S} (hflag : s.m_isStop = false)
    (hl : s.loops[i]? = some l) (hpc : l.pc = .testing) (hclosed : s.closed l.sock = true) :
    [Act.turn i, Act.turn i].foldlM step s =
      some { s with loops := s.loops.set i { l with late := l.late + 1 } } := by
  obtain ⟨hlt, -⟩ := List.getElem?_eq_some_iff.mp hl
  let called : Loop S := { l with pc := .accepting, late := l.late + 1 }
  have hcall : step s (.turn i) = some { s with loops := s.loops.set i called } := by
    simp [step, hl, Loop.turn, hpc, hflag, hclosed, called]
  have hreturn : step { s with loops := s.loops.set i called } (.turn i) =
      some { s with loops := s.loops.set i { l with late := l.late + 1 } } := by
    have hat : (s.loops.set i called)[i]? = some called := List.getElem?_set_self hlt
    simp only [step, hat, Option.bind_some, Loop.turn, called, Option.map_some, List.set_set, hpc]
  simp only [List.foldlM_cons, List.foldlM_nil, hcall, Option.bind_eq_bind, Option.bind_some,
    hreturn]
  rfl

/-- **The loop spins.**  Once the flag is false and the socket of a loop closed, the loop
goes on to call `accept` as often as it is let. -/
theorem accept_spins {s : State S} {i : Nat} {l : Loop S} (hflag : s.m_isStop = false)
    (hl : s.loops[i]? = some l) (hpc : l.pc = .testing) (hclosed : s.closed l.sock = true)
    (n : Nat) :
    ∃ (acts : List Act) (s' : State S), acts.foldlM step s = some s' ∧
      s'.loops[i]? = some { l with late := l.late + n } := by
  induction n generalizing s l with
  | zero => exact ⟨[], s, rfl, hl⟩
  | succ n ih =>
      obtain ⟨hlt, -⟩ := List.getElem?_eq_some_iff.mp hl
      obtain ⟨acts, s', hrun, hat⟩ := ih
        (s := { s with loops := s.loops.set i { l with late := l.late + 1 } })
        (l := { l with late := l.late + 1 }) hflag (List.getElem?_set_self hlt) hpc hclosed
      refine ⟨[.turn i, .turn i] ++ acts, s', ?_, ?_⟩
      · rw [List.foldlM_append, two_turns hflag hl hpc hclosed]
        exact hrun
      · rw [hat, Nat.add_assoc, Nat.add_comm 1 n]

/-- One socket: the loop calls `accept` twice after the lambda has closed it. -/
theorem closed_socket_accepted_twice :
    ¬ ∀ (socks : List Bool) (acts : List Act), Along Step Agrees (bound socks) acts := by
  intro hall
  let acts : List Act :=
    [.start, .turn 0, .stop, .lambda 0, .lambda 0, .turn 0, .turn 0, .turn 0]
  have hrun := hall [true] (acts ++ [.turn 0])
  have hview : ((acts ++ [Act.turn 0]).foldlM step (bound [true])).map
      (fun s => s.loops.map Loop.late) = some [2] := by decide
  obtain ⟨s', hs', hat⟩ := Option.map_eq_some_iff.mp hview
  rw [List.foldlM_append] at hs'
  obtain ⟨s, hs, hlast⟩ := Option.bind_eq_some_iff.mp hs'
  have hstep : step s (.turn 0) = some s' := by simpa using hlast
  have hlawful : Lawful s' := Along.last (fun _ _ _ h => h) acts hrun hs s' hstep
  have hmem : 2 ∈ s'.loops.map Loop.late := by
    rw [hat]
    exact List.mem_singleton_self 2
  obtain ⟨l, hl, htwo⟩ := List.mem_map.mp hmem
  have hone := hlawful.accepts l hl
  omega

end TcpServer

end Agent
