import GServer.Hook
import Mathlib

/-!
# Hooked calls that configure a socket

A socket with a context is kept non-blocking in the kernel, whatever its user has
asked for; the context remembers what that was.  The hooked `fcntl(F_SETFL)`
translates the flags it is given before it passes them on.  `ioctl(FIONBIO)`
passes the value of the user on as it is, and `F_GETFL` returns the flags of the
kernel.

The hooked `setsockopt` is to remember the two timeouts of a socket.  Its test
`optname == SO_RCVTIMEO || SO_SNDTIMEO` is true of every option, and
`FdCtx::setTimeout` takes every type but `SO_RCVTIMEO` for the send timeout.
-/

namespace Agent

open Runs

namespace SocketOptions

/-- `O_NONBLOCK`. -/
def oNonblock : BitVec 32 := 0x800#32

/-- The flags that `F_SETFL` can change: `O_APPEND`, `O_NONBLOCK`, `O_ASYNC`, `O_DIRECT`
and `O_NOATIME`. -/
def settable : BitVec 32 := 0x46c00#32

/-- `flags & O_NONBLOCK`. -/
def isNonblock (flags : BitVec 32) : Bool :=
  (flags &&& oNonblock) != 0#32

/-- `fcntl_f(fd, F_SETFL, arg)`: the flags it leaves, if it succeeds. -/
def setfl (flags arg : BitVec 32) (ok : Bool) : BitVec 32 :=
  if ok then (flags &&& ~~~settable) ||| (arg &&& settable) else flags

/-- `ioctl_f(fd, FIONBIO, &v)`. -/
def fionbio (flags : BitVec 32) (v : Int) (ok : Bool) : BitVec 32 :=
  if !ok then flags
  else if v ≠ 0 then flags ||| oNonblock
  else flags &&& ~~~oNonblock

/-- The contexts, and the file status flags that the kernel has for one descriptor. -/
structure Descriptor where
  fds : FdManager
  flags : BitVec 32

/-- The flags that `FdCtx::init` leaves for a socket. -/
def initFlags (flags : BitVec 32) : BitVec 32 :=
  if isNonblock flags then flags else setfl flags (flags ||| oNonblock) true

/-- The hooked `fcntl(fd, F_SETFL, arg)`. -/
def fcntlSetfl (s : Descriptor) (fd : Int) (stat : FdStat) (arg : BitVec 32) (ok : Bool) :
    Option Descriptor :=
  match s.fds.get fd false stat with
  | none => none
  | some (none, fds) => some { fds := fds, flags := setfl s.flags arg ok }
  | some (some p, fds) =>
      match fds.contexts[p]? with
      | none => none
      | some ctx =>
          if ctx.isClosed || !ctx.isSocket then
            some { fds := fds, flags := setfl s.flags arg ok }
          else
            let ctx' := { ctx with userNonblock := isNonblock arg }
            let arg' := if ctx.sysNonblock then arg ||| oNonblock else arg &&& ~~~oNonblock
            let fds' := { fds with contexts := fds.contexts.set p ctx' }
            some { fds := fds', flags := setfl s.flags arg' ok }

/-- The hooked `ioctl(fd, FIONBIO, &v)`. -/
def ioctlFionbio (s : Descriptor) (fd : Int) (stat : FdStat) (v : Int) (ok : Bool) :
    Option Descriptor :=
  match s.fds.get fd false stat with
  | none => none
  | some (none, fds) => some { fds := fds, flags := fionbio s.flags v ok }
  | some (some p, fds) =>
      match fds.contexts[p]? with
      | none => none
      | some ctx =>
          if ctx.isClosed || !ctx.isSocket then
            some { fds := fds, flags := fionbio s.flags v ok }
          else
            let ctx' := { ctx with userNonblock := decide (v ≠ 0) }
            let fds' := { fds with contexts := fds.contexts.set p ctx' }
            some { fds := fds', flags := fionbio s.flags v ok }

/-- The hooked `fcntl(fd, F_GETFL)`. -/
def fcntlGetfl (s : Descriptor) : BitVec 32 :=
  s.flags

/-- A call that asks for a blocking or a non-blocking socket, and whether the raw call
succeeds. -/
inductive FlagCall
  | setfl (arg : BitVec 32) (ok : Bool)
  | fionbio (v : Int) (ok : Bool)
deriving DecidableEq

/-- The call asks for a non-blocking socket. -/
def FlagCall.asks : FlagCall → Bool
  | .setfl arg _ => isNonblock arg
  | .fionbio v _ => decide (v ≠ 0)

/-- The call takes `O_NONBLOCK` away from the kernel. -/
def FlagCall.clears : FlagCall → Bool
  | .setfl _ _ => false
  | .fionbio v ok => ok && decide (v = 0)

/-- What the last of the calls asked for; before any call, a blocking socket. -/
def lastAsked (calls : List FlagCall) : Bool :=
  calls.foldl (fun _ call => call.asks) false

/-- One call on the socket. -/
def flagStep (fd : Int) (s : Descriptor) : FlagCall → Option Descriptor
  | .setfl arg ok => fcntlSetfl s fd .socket arg ok
  | .fionbio v ok => ioctlFionbio s fd .socket v ok

/-- `getUserNonblock` of the context of the descriptor. -/
def userNonblock (s : Descriptor) (fd : Int) : Option Bool :=
  ((s.fds.stored fd).bind (fun p => s.fds.contexts[p]?)).map (fun ctx => ctx.userNonblock)

/-- The descriptor has this context, and `get` finds it. -/
structure Managed (fds : FdManager) (fd : Int) (p : FdCtxPtr) (ctx : FdCtx) : Prop where
  nonneg : 0 ≤ fd
  visible : fd < fds.intSize
  stored : fds.stored fd = some p
  context : fds.contexts[p]? = some ctx

/-- After the calls the kernel's `O_NONBLOCK` is set and always was, the context has what
the last call asked for, and `F_GETFL` reports it. -/
structure StaysNonblocking (fd : Int) (s : Descriptor) (calls : List FlagCall) : Prop where
  kernel : ∀ before after t, calls = before ++ after →
    before.foldlM (flagStep fd) s = some t → isNonblock t.flags = true
  user : ∃ t, calls.foldlM (flagStep fd) s = some t ∧
    userNonblock t fd = some (lastAsked calls) ∧
    isNonblock (fcntlGetfl t) = lastAsked calls

/-! ## Lookups of a managed descriptor -/

/-- The context of a managed descriptor is found. -/
theorem Managed.get {fds : FdManager} {fd : Int} {p : FdCtxPtr} {ctx : FdCtx}
    (h : Managed fds fd p ctx) (stat : FdStat) : fds.get fd false stat = some (some p, fds) := by
  have hfinite : fds.get fd false stat = some (fds.stored fd, fds) :=
    (FdManager.get_false_iff h.nonneg).mpr (by simp [h.stored, h.visible])
  rw [hfinite, h.stored]

/-- A descriptor stays managed when its context is written. -/
theorem Managed.set {fds : FdManager} {fd : Int} {p : FdCtxPtr} {ctx : FdCtx}
    (h : Managed fds fd p ctx) (ctx' : FdCtx) :
    Managed { fds with contexts := fds.contexts.set p ctx' } fd p ctx' where
  nonneg := h.nonneg
  visible := h.visible
  stored := h.stored
  context := List.getElem?_set_self (List.getElem?_eq_some_iff.mp h.context).1

/-- The flag of a managed descriptor is the one that `fcntl` looks at. -/
theorem Managed.userNonblock {fds : FdManager} {fd : Int} {p : FdCtxPtr} {ctx : FdCtx}
    (h : Managed fds fd p ctx) (flags : BitVec 32) :
    userNonblock { fds := fds, flags := flags } fd = some ctx.userNonblock := by
  simp [SocketOptions.userNonblock, h.stored, h.context]

/-! ## The flags of the kernel -/

theorem oNonblock_eq : oNonblock = BitVec.twoPow 32 11 := by
  decide

/-- `O_NONBLOCK` is bit 11. -/
theorem isNonblock_eq (flags : BitVec 32) : isNonblock flags = flags.getLsbD 11 := by
  unfold isNonblock
  rw [oNonblock_eq, BitVec.and_twoPow]
  cases flags.getLsbD 11 with
  | true => rfl
  | false => rfl

/-- The flag after `F_SETFL`. -/
theorem isNonblock_setfl (flags arg : BitVec 32) (ok : Bool) :
    isNonblock (setfl flags arg ok) = if ok then isNonblock arg else isNonblock flags := by
  cases ok with
  | false => rfl
  | true =>
      have hmask : settable[11] = true := by decide
      simp [setfl, isNonblock_eq, hmask]

/-- Setting the flag sets it. -/
theorem isNonblock_or (flags : BitVec 32) : isNonblock (flags ||| oNonblock) = true := by
  have hbit : oNonblock.getLsbD 11 = true := by decide
  simp [isNonblock_eq, hbit]

/-- The flag after `FIONBIO`. -/
theorem isNonblock_fionbio (flags : BitVec 32) (v : Int) (ok : Bool) :
    isNonblock (fionbio flags v ok) =
      if ok then decide (v ≠ 0) else isNonblock flags := by
  have hbit : oNonblock.getLsbD 11 = true := by decide
  cases ok with
  | false => rfl
  | true =>
      by_cases hv : v = 0
      · simp [fionbio, isNonblock_eq, hv, hbit]
      · simp [fionbio, hv, isNonblock_or]

/-- A new context has made its descriptor nonblocking. -/
theorem isNonblock_initFlags (flags : BitVec 32) : isNonblock (initFlags flags) = true := by
  unfold initFlags
  split
  · assumption
  · rw [isNonblock_setfl, if_pos rfl, isNonblock_or]

/-! ## The calls on an open socket -/

/-- The context of an open socket whose non-blocking mode is managed. -/
def Kept (ctx : FdCtx) : Prop :=
  ctx.isClosed = false ∧ ctx.isSocket = true ∧ ctx.sysNonblock = true

/-- What the kernel's `O_NONBLOCK` becomes. -/
def FlagCall.kernel (nonblock : Bool) : FlagCall → Bool
  | .setfl _ ok => ok || nonblock
  | .fionbio v ok => if ok then decide (v ≠ 0) else nonblock

/-- What one call does. -/
theorem flagStep_spec {s : Descriptor} {fd : Int} {p : FdCtxPtr} {ctx : FdCtx}
    (h : Managed s.fds fd p ctx) (hkept : Kept ctx) (call : FlagCall) :
    ∃ t ctx', flagStep fd s call = some t ∧ Managed t.fds fd p ctx' ∧ Kept ctx' ∧
      ctx'.userNonblock = call.asks ∧ isNonblock t.flags = call.kernel (isNonblock s.flags) := by
  obtain ⟨hopen, hsocket, hsys⟩ := hkept
  have hget := h.get .socket
  have hmanages : ¬ (ctx.isClosed || !ctx.isSocket) = true := by simp [hopen, hsocket]
  cases call with
  | setfl arg ok =>
      let ctx' := { ctx with userNonblock := isNonblock arg }
      let fds' := { s.fds with contexts := s.fds.contexts.set p ctx' }
      refine ⟨⟨fds', setfl s.flags (arg ||| oNonblock) ok⟩, ctx', ?_, h.set ctx',
        ⟨hopen, hsocket, hsys⟩, rfl, ?_⟩
      · simp only [flagStep, fcntlSetfl, hget, h.context, if_neg hmanages, if_pos hsys]
        rfl
      · cases ok <;> simp [isNonblock_setfl, isNonblock_or, FlagCall.kernel]
  | fionbio v ok =>
      let ctx' := { ctx with userNonblock := decide (v ≠ 0) }
      let fds' := { s.fds with contexts := s.fds.contexts.set p ctx' }
      refine ⟨⟨fds', fionbio s.flags v ok⟩, ctx', ?_, h.set ctx',
        ⟨hopen, hsocket, hsys⟩, rfl, isNonblock_fionbio s.flags v ok⟩
      simp only [flagStep, ioctlFionbio, hget, h.context, if_neg hmanages]
      rfl

/-- What a sequence of calls does. -/
theorem run_spec (calls : List FlagCall) :
    ∀ {s : Descriptor} {fd : Int} {p : FdCtxPtr} {ctx : FdCtx}, Managed s.fds fd p ctx →
      Kept ctx → ∃ t ctx', calls.foldlM (flagStep fd) s = some t ∧
        Managed t.fds fd p ctx' ∧
        ctx'.userNonblock = calls.foldl (fun _ call => call.asks) ctx.userNonblock ∧
        isNonblock t.flags = calls.foldl FlagCall.kernel (isNonblock s.flags) := by
  induction calls with
  | nil =>
      intro s fd p ctx h _
      exact ⟨s, ctx, rfl, h, rfl, rfl⟩
  | cons call calls ih =>
      intro s fd p ctx h hkept
      obtain ⟨t, ctx', hstep, hmanaged, hkept', huser, hkernel⟩ := flagStep_spec h hkept call
      obtain ⟨t', ctx'', hrun, hmanaged', huser', hkernel'⟩ := ih hmanaged hkept'
      refine ⟨t', ctx'', ?_, hmanaged', ?_, ?_⟩
      · simp [hstep, hrun]
      · rw [huser', huser, List.foldl_cons]
      · rw [hkernel', hkernel, List.foldl_cons]

/-- A call leaves the flag set exactly when it does not clear it. -/
theorem FlagCall.kernel_true (call : FlagCall) : call.kernel true = !call.clears := by
  cases call with
  | setfl arg ok => simp [kernel, clears]
  | fionbio v ok => cases ok <;> simp [kernel, clears]

/-- `O_NONBLOCK` is set after every part of a sequence exactly when no call takes it
away. -/
theorem kernel_prefixes_iff (calls : List FlagCall) :
    (∀ before after, calls = before ++ after → before.foldl FlagCall.kernel true = true) ↔
      ∀ call ∈ calls, call.clears = false := by
  constructor
  · intro hprefix call hcall
    obtain ⟨before, after, rfl⟩ := List.append_of_mem hcall
    have hbefore := hprefix before (call :: after) rfl
    have hcall := hprefix (before ++ [call]) after (by simp)
    rw [List.foldl_append, hbefore, List.foldl_cons, List.foldl_nil,
      FlagCall.kernel_true] at hcall
    simpa using hcall
  · rintro hnone before after rfl
    induction before with
    | nil => rfl
    | cons call before ih =>
        have hcall : call.kernel true = true := by
          rw [FlagCall.kernel_true, hnone call (by simp)]
          rfl
        rw [List.foldl_cons, hcall]
        exact ih fun other hother => hnone other (List.mem_cons_of_mem call hother)

/-- **Non-blocking sockets.**  For every socket context, whatever the flags of the socket
were when it was made, and every sequence of `fcntl(F_SETFL)` and `ioctl(FIONBIO)`: the
kernel's `O_NONBLOCK` stays set, the context has what was asked for last and `F_GETFL`
reports it, exactly when no call of `ioctl` takes the flag away and the last call asks
for a non-blocking socket. -/
theorem staysNonblocking_iff (fds : FdManager) (fd : Int) (p : FdCtxPtr) (flags : BitVec 32)
    (calls : List FlagCall) (h : Managed fds fd p (FdCtx.new fd .socket)) :
    StaysNonblocking fd { fds := fds, flags := initFlags flags } calls ↔
      (∀ call ∈ calls, call.clears = false) ∧ lastAsked calls = true := by
  let s : Descriptor := { fds := fds, flags := initFlags flags }
  have hkept : Kept (FdCtx.new fd .socket) := ⟨rfl, rfl, rfl⟩
  have hinit : isNonblock s.flags = true := isNonblock_initFlags flags
  have hrun : ∀ before : List FlagCall, ∃ t ctx, before.foldlM (flagStep fd) s = some t ∧
      Managed t.fds fd p ctx ∧ ctx.userNonblock = lastAsked before ∧
      isNonblock t.flags = before.foldl FlagCall.kernel true := by
    intro before
    have hspec := run_spec before (s := s) h hkept
    rwa [hinit] at hspec
  obtain ⟨t, ctx, ht, hmanaged, huser, hkernel⟩ := hrun calls
  constructor
  · rintro ⟨hstays, t', ht', -, hgetfl⟩
    obtain rfl : t = t' := Option.some.inj (ht.symm.trans ht')
    refine ⟨(kernel_prefixes_iff calls).mp fun before after hcalls => ?_, ?_⟩
    · obtain ⟨u, -, hu, -, -, hu'⟩ := hrun before
      rw [← hu']
      exact hstays before after u hcalls hu
    · rw [← hgetfl]
      exact hstays calls [] t (List.append_nil calls).symm ht
  · rintro ⟨hnone, hlast⟩
    have hset := (kernel_prefixes_iff calls).mpr hnone
    refine ⟨fun before after u hcalls hu => ?_, t, ht, ?_, ?_⟩
    · obtain ⟨u', -, hu', -, -, hkernel'⟩ := hrun before
      obtain rfl : u = u' := Option.some.inj (hu.symm.trans hu')
      rw [hkernel']
      exact hset before after hcalls
    · rw [← huser]
      exact hmanaged.userNonblock t.flags
    · show isNonblock t.flags = lastAsked calls
      rw [hkernel, hlast]
      exact hset calls [] (List.append_nil calls).symm

/-- A table with a context for descriptor 7, just made. -/
def oneSocket : FdManager :=
  { datas := List.replicate 7 none ++ [some 0, none, none]
    contexts := [FdCtx.new 7 .socket] }

example : FdManager.new.get 7 true .socket = some (some 0, oneSocket) := by
  decide

/-- The socket has its context. -/
theorem oneSocket_managed : Managed oneSocket 7 0 (FdCtx.new 7 .socket) :=
  ⟨by decide, by decide, by decide, rfl⟩

/-- `ioctl` with 0 makes the socket blocking. -/
theorem fionbio_zero_blocks :
    ¬ ∀ (fds : FdManager) (fd : Int) (p : FdCtxPtr) (flags : BitVec 32)
        (calls : List FlagCall), Managed fds fd p (FdCtx.new fd .socket) →
      StaysNonblocking fd { fds := fds, flags := initFlags flags } calls := by
  intro hall
  have hstays := (hall oneSocket 7 0 0#32 [.fionbio 0 true] oneSocket_managed).kernel
  have hview : ([FlagCall.fionbio 0 true].foldlM (flagStep 7)
      { fds := oneSocket, flags := initFlags 0#32 }).map (fun t => isNonblock t.flags) =
        some false := by
    decide
  obtain ⟨t, ht, hblocks⟩ := Option.map_eq_some_iff.mp hview
  have := hstays [.fionbio 0 true] [] t rfl ht
  simp [hblocks] at this

/-- `fcntl` without `O_NONBLOCK` and then `ioctl` with 1. -/
theorem staysNonblocking_of_fionbio_one :
    let s : Descriptor := { fds := oneSocket, flags := initFlags 2#32 }
    let calls : List FlagCall := [.setfl 2#32 true, .fionbio 1 true]
    StaysNonblocking 7 s calls :=
  (staysNonblocking_iff oneSocket 7 0 2#32 _ oneSocket_managed).mpr ⟨by decide, by decide⟩

/-! ## Timeouts -/

/-- `SOL_SOCKET`. -/
def solSocket : Int := 1

/-- `SO_RCVTIMEO`. -/
def soRcvtimeo : Int := 20

/-- `SO_SNDTIMEO`. -/
def soSndtimeo : Int := 21

/-- `timeval`. -/
structure Timeval where
  sec : Int
  usec : Int
deriving DecidableEq

/-- `v -> tv_sec * 1000 + v -> tv_usec / 1000`, as the `uint64_t` that `setTimeout`
takes. -/
def Timeval.millis (v : Timeval) : Nat :=
  ((v.sec * 1000 + v.usec.tdiv 1000) % 2 ^ 64).toNat

/-- A call of `setsockopt`; `optval` is what stands at the pointer it is given, read as a
`timeval`. -/
structure OptionCall where
  level : Int
  optname : Int
  optval : Timeval
deriving DecidableEq

/-- The call is about one of the timeouts, or about no option of `SOL_SOCKET`. -/
def OptionCall.plain (call : OptionCall) : Prop :=
  call.level = solSocket → call.optname = soRcvtimeo ∨ call.optname = soSndtimeo

instance (call : OptionCall) : Decidable call.plain :=
  inferInstanceAs (Decidable (_ → _))

/-- The call gives the timeout of this name. -/
def OptionCall.gives (name : Int) (call : OptionCall) : Prop :=
  call.level = solSocket ∧ call.optname = name

instance (name : Int) (call : OptionCall) : Decidable (call.gives name) :=
  inferInstanceAs (Decidable (_ ∧ _))

/-- `FdCtx::setTimeout`. -/
def setTimeout (ctx : FdCtx) (type : Int) (v : Nat) : FdCtx :=
  if type = soRcvtimeo then { ctx with recvTimeout := v } else { ctx with sendTimeout := v }

/-- The hooked `setsockopt`, up to the raw call: the contexts, and whether it has read
`optval` as a `timeval`. -/
def setsockopt (fds : FdManager) (hookEnable : Bool) (fd : Int) (stat : FdStat)
    (call : OptionCall) : Option (FdManager × Bool) :=
  if !hookEnable then some (fds, false)
  else if call.level = solSocket then
    if call.optname = soRcvtimeo ∨ soSndtimeo ≠ 0 then
      match fds.get fd false stat with
      | none => none
      | some (none, fds) => some (fds, false)
      | some (some p, fds) =>
          match fds.contexts[p]? with
          | none => none
          | some ctx =>
              let ctx' := setTimeout ctx call.optname call.optval.millis
              some ({ fds with contexts := fds.contexts.set p ctx' }, true)
    else some (fds, false)
  else some (fds, false)

/-- One call: `read` are the calls whose `optval` has been read as a `timeval`. -/
def optionStep (fd : Int) (stat : FdStat) :
    FdManager × List OptionCall → OptionCall → Option (FdManager × List OptionCall)
  | (fds, read), call =>
      (setsockopt fds true fd stat call).map fun r =>
        (r.1, if r.2 then read ++ [call] else read)

/-- The timeout given by the last call that gives it, at first unlimited. -/
def lastGiven (name : Int) (calls : List OptionCall) : Nat :=
  calls.foldl (fun ms call => if call.gives name then call.optval.millis else ms) Hook.unlimited

/-- The descriptor has the timeouts that were given last, and nothing else has been read
as a `timeval`. -/
def SetOnlyWhenAsked (fd : Int) (stat : FdStat) (p : FdCtxPtr) (fds : FdManager)
    (calls : List OptionCall) : Prop :=
  ∃ fds' read ctx, calls.foldlM (optionStep fd stat) (fds, []) = some (fds', read) ∧
    fds'.stored fd = some p ∧ fds'.contexts[p]? = some ctx ∧
    ctx.recvTimeout = lastGiven soRcvtimeo calls ∧
    ctx.sendTimeout = lastGiven soSndtimeo calls ∧
    ∀ call ∈ read, call.gives soRcvtimeo ∨ call.gives soSndtimeo

/-- What one call does to a managed descriptor: every option of `SOL_SOCKET` is read as
a timeout. -/
theorem optionStep_spec {fds : FdManager} {fd : Int} {p : FdCtxPtr} {ctx : FdCtx}
    (h : Managed fds fd p ctx) (stat : FdStat) (read : List OptionCall) (call : OptionCall) :
    ∃ fds' ctx', optionStep fd stat (fds, read) call =
        some (fds', if call.level = solSocket then read ++ [call] else read) ∧
      Managed fds' fd p ctx' ∧
      ctx' = if call.level = solSocket then
        setTimeout ctx call.optname call.optval.millis else ctx := by
  by_cases hlevel : call.level = solSocket
  · have htest : call.optname = soRcvtimeo ∨ soSndtimeo ≠ 0 := Or.inr (by decide)
    let ctx' := setTimeout ctx call.optname call.optval.millis
    refine ⟨{ fds with contexts := fds.contexts.set p ctx' }, ctx', ?_, h.set ctx', ?_⟩
    · simp only [optionStep, setsockopt, Bool.not_true, Bool.false_eq_true, if_false,
        if_pos hlevel, if_pos htest, h.get stat, h.context, Option.map_some, if_true]
      rfl
    · rw [if_pos hlevel]
  · refine ⟨fds, ctx, ?_, h, ?_⟩
    · simp [optionStep, setsockopt, hlevel]
    · rw [if_neg hlevel]

/-- Calls about the timeouts only set what they give. -/
theorem timeouts_of_plain {ctx ctx' : FdCtx} {call : OptionCall} (hplain : call.plain)
    (hctx : ctx' = if call.level = solSocket then
      setTimeout ctx call.optname call.optval.millis else ctx) :
    ctx'.recvTimeout = (if call.gives soRcvtimeo then call.optval.millis
      else ctx.recvTimeout) ∧
    ctx'.sendTimeout = (if call.gives soSndtimeo then call.optval.millis
      else ctx.sendTimeout) := by
  subst hctx
  by_cases hlevel : call.level = solSocket
  · have hdiffer : soSndtimeo ≠ soRcvtimeo := by decide
    rcases hplain hlevel with hname | hname
    · simp [hlevel, OptionCall.gives, hname, setTimeout, hdiffer.symm]
    · simp [hlevel, OptionCall.gives, hname, setTimeout, hdiffer]
  · simp [hlevel, OptionCall.gives]

/-- A sequence of calls: the calls for `SOL_SOCKET` are read as timeouts, and if all of
them are, the timeouts are those given last. -/
theorem options_spec (stat : FdStat) (calls : List OptionCall) :
    ∀ {fds : FdManager} {fd : Int} {p : FdCtxPtr} {ctx : FdCtx} (read : List OptionCall),
      Managed fds fd p ctx → ∃ fds' ctx', calls.foldlM (optionStep fd stat) (fds, read) =
          some (fds', read ++ calls.filter (fun call => call.level = solSocket)) ∧
        Managed fds' fd p ctx' ∧
        ((∀ call ∈ calls, call.plain) →
          ctx'.recvTimeout = calls.foldl (fun ms call =>
            if call.gives soRcvtimeo then call.optval.millis else ms) ctx.recvTimeout ∧
          ctx'.sendTimeout = calls.foldl (fun ms call =>
            if call.gives soSndtimeo then call.optval.millis else ms) ctx.sendTimeout) := by
  induction calls with
  | nil =>
      intro fds fd p ctx read h
      exact ⟨fds, ctx, by simp, h, fun _ => ⟨rfl, rfl⟩⟩
  | cons call calls ih =>
      intro fds fd p ctx read h
      obtain ⟨fds', ctx', hstep, hmanaged, hctx⟩ := optionStep_spec h stat read call
      obtain ⟨fds'', ctx'', hrun, hmanaged', htimeouts⟩ :=
        ih (if call.level = solSocket then read ++ [call] else read) hmanaged
      refine ⟨fds'', ctx'', ?_, hmanaged', fun hplain => ?_⟩
      · rw [List.foldlM_cons, hstep, Option.bind_eq_bind, Option.bind_some, hrun]
        by_cases hlevel : call.level = solSocket
        · simp [hlevel]
        · simp [hlevel]
      · obtain ⟨hrecv, hsend⟩ := timeouts_of_plain (hplain call List.mem_cons_self) hctx
        obtain ⟨hrecv', hsend'⟩ := htimeouts fun other hother =>
          hplain other (List.mem_cons_of_mem call hother)
        rw [hrecv', hsend', hrecv, hsend]
        exact ⟨rfl, rfl⟩

/-- **Timeouts of a socket.**  For every descriptor with a context and every sequence of
hooked `setsockopt` calls, the timeouts are the ones given last and nothing else is read
as a `timeval` exactly when no call is for another option of `SOL_SOCKET`. -/
theorem setOnlyWhenAsked_iff (fds : FdManager) (fd : Int) (p : FdCtxPtr) (stat : FdStat)
    (calls : List OptionCall) (h : Managed fds fd p (FdCtx.new fd stat)) :
    SetOnlyWhenAsked fd stat p fds calls ↔ ∀ call ∈ calls, call.plain := by
  obtain ⟨fds', ctx', hrun, hmanaged, htimeouts⟩ := options_spec stat calls [] h
  rw [List.nil_append] at hrun
  constructor
  · rintro ⟨fds'', read, ctx, hrun', -, -, -, -, hread⟩ call hcall hlevel
    obtain ⟨rfl, rfl⟩ := Prod.mk.inj (Option.some.inj (hrun.symm.trans hrun'))
    rcases hread call (List.mem_filter.mpr ⟨hcall, by simpa using hlevel⟩) with hgives | hgives
    · exact Or.inl hgives.2
    · exact Or.inr hgives.2
  · intro hplain
    obtain ⟨hrecv, hsend⟩ := htimeouts hplain
    have hunlimited : (FdCtx.new fd stat).recvTimeout = Hook.unlimited ∧
        (FdCtx.new fd stat).sendTimeout = Hook.unlimited := ⟨rfl, rfl⟩
    rw [hunlimited.1] at hrecv
    rw [hunlimited.2] at hsend
    refine ⟨fds', _, ctx', hrun, hmanaged.stored, hmanaged.context, hrecv, hsend,
      fun call hcall => ?_⟩
    obtain ⟨hmem, hlevel⟩ := List.mem_filter.mp hcall
    have hlevel : call.level = solSocket := by simpa using hlevel
    exact (hplain call hmem hlevel).imp (fun hname => ⟨hlevel, hname⟩)
      fun hname => ⟨hlevel, hname⟩

/-- `Socket::initSock` sets `SO_REUSEADDR`, which is option 2, to 1. -/
theorem reuseaddr_sets_send_timeout :
    ¬ ∀ (fds : FdManager) (fd : Int) (p : FdCtxPtr) (stat : FdStat)
        (calls : List OptionCall), Managed fds fd p (FdCtx.new fd stat) →
      SetOnlyWhenAsked fd stat p fds calls := by
  intro hall
  obtain ⟨fds, read, ctx, hrun, -, hctx, -, hsend, -⟩ :=
    hall oneSocket 7 0 .socket [⟨1, 2, ⟨1, 0⟩⟩] oneSocket_managed
  have hview : ([⟨1, 2, ⟨1, 0⟩⟩].foldlM (optionStep 7 .socket) (oneSocket, [])).map
      (fun r => r.1.contexts.map (fun ctx => ctx.sendTimeout)) = some [1000] := by
    decide
  rw [hrun] at hview
  have hcontexts : fds.contexts.map (fun ctx => ctx.sendTimeout) = [1000] :=
    Option.some.inj hview
  have hget := congrArg (fun l => l[0]?) hcontexts
  simp [hctx, hsend] at hget
  revert hget
  decide

/-- A receive timeout of two seconds and `TCP_NODELAY`. -/
theorem setOnlyWhenAsked_of_timeouts :
    let calls : List OptionCall := [⟨1, 20, ⟨2, 500⟩⟩, ⟨6, 1, ⟨1, 0⟩⟩]
    SetOnlyWhenAsked 7 .socket 0 oneSocket calls :=
  (setOnlyWhenAsked_iff oneSocket 7 0 .socket _ oneSocket_managed).mpr (by decide)

end SocketOptions

end Agent
