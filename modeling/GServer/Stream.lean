import GServer.HttpSession
import Mathlib

/-!
# Transfers of a fixed size

`readFixSize` and `writeFixSize` call `read` or `write` until all bytes are through.  The
result of a call is an `int` that is kept as a `size_t`: zero ends the loop, but `-1`
becomes the greatest length, the rest grows by one, and the loop goes on.

The results of the calls are given.  The four functions are one loop; those that work on
a buffer also pass a position in it.
-/

namespace Agent

open Http (toInt)

namespace Stream

/-- A call of the underlying `read` or `write`: the position in the buffer, if there is
one, and the length that is asked for. -/
structure Call where
  position : Option Nat
  asked : Nat
deriving DecidableEq

/-- The calls that were made, and what is returned; `none` while a call waits for its
result. -/
abbrev Run : Type := List Call × Option Int

/-- An `int` kept as a `size_t`. -/
def sizeT (r : Int) : Nat :=
  (r % 2 ^ 64).toNat

/-- The loop of the four functions for these results. -/
def fixLoop (positioned : Bool) (length : Nat) : List Int → Nat → Nat → Run
  | [], offset, rest =>
      if rest > 0 then ([⟨if positioned then some offset else none, rest⟩], none)
      else ([], some (toInt length))
  | r :: rs, offset, rest =>
      if rest > 0 then
        let call : Call := ⟨if positioned then some offset else none, rest⟩
        let len := sizeT r
        if len ≤ 0 then ([call], some (toInt len))
        else
          let run := fixLoop positioned length rs ((offset + len) % 2 ^ 64)
            ((rest + (2 ^ 64 - len)) % 2 ^ 64)
          (call :: run.1, run.2)
      else ([], some (toInt length))

/-- `Stream::readFixSize` on a buffer. -/
def readFixSize (length : UInt64) (results : List Int) : Run :=
  fixLoop true length.toNat results 0 length.toNat

/-- `Stream::readFixSize` on a `ByteArray`. -/
def readFixSizeArray (length : UInt64) (results : List Int) : Run :=
  fixLoop false length.toNat results 0 length.toNat

/-- `Stream::writeFixSize`. -/
def writeFixSize (length : UInt64) (results : List Int) : Run :=
  fixLoop true length.toNat results 0 length.toNat

/-- `Stream::writeFixsize`. -/
def writeFixsize (length : UInt64) (results : List Int) : Run :=
  fixLoop false length.toNat results 0 length.toNat

/-! ## What a transfer has to do -/

/-- How results stand to the bytes that are left. -/
inductive Stop
  | reached
  | stopped (r : Int)
  | waiting
deriving DecidableEq

/-- The positive results reach the rest, or one that is not positive comes first. -/
def stop : Nat → List Int → Stop
  | rest, [] => if rest > 0 then .waiting else .reached
  | rest, r :: rs =>
      if rest > 0 then if r ≤ 0 then .stopped r else stop (rest - r.toNat) rs else .reached

/-- How many calls that takes, one that still waits included. -/
def uses : Nat → List Int → Nat
  | rest, [] => if rest > 0 then 1 else 0
  | rest, r :: rs =>
      if rest > 0 then if r ≤ 0 then 1 else uses (rest - r.toNat) rs + 1 else 0

/-- Up to where the transfer stops, each result is `-1`, zero, or a positive `int` that is
no more than was left. -/
def Valid : Nat → List Int → Prop
  | _, [] => True
  | rest, r :: rs =>
      rest > 0 → r = -1 ∨ r = 0 ∨ (0 < r ∧ r ≤ rest ∧ r < 2 ^ 31 ∧ Valid (rest - r.toNat) rs)

/-- What is to be returned. -/
def Stop.returned (length : Nat) : Stop → Option Int
  | reached => some length
  | stopped r => some r
  | waiting => none

/-- The transfer of `length` bytes, of which `rest` are left: it returns what it has to,
makes no call after it has to stop, and stays inside the buffer. -/
structure Transfers (length rest : Nat) (results : List Int) (run : Run) : Prop where
  returns : run.2 = (stop rest results).returned length
  calls : run.1.length = uses rest results
  inside : ∀ c ∈ run.1, c.asked ≤ length ∧ ∀ p, c.position = some p → p ≤ length

/-- What the loop can cope with: the bytes that come through are as many as an `int` can
hold, and no call fails, but for the first call for the greatest length. -/
structure Copes (length rest : Nat) (results : List Int) : Prop where
  int : stop rest results = .reached → length < 2 ^ 31
  failure : stop rest results = .stopped (-1) →
    length = 2 ^ 64 - 1 ∧ rest = length ∧ results.head? = some (-1)

/-! ## The loop -/

/-- The conversion to `int` wraps. -/
theorem toInt_eq (n : Nat) : toInt n = Int.bmod n 4294967296 := by
  unfold toInt
  rfl

/-- A length is itself as an `int` exactly below 2^31. -/
theorem toInt_eq_self_iff {n : Nat} (hn : n < 2 ^ 64) : toInt n = n ↔ n < 2 ^ 31 := by
  rw [toInt_eq, Int.bmod_def]
  omega

/-- The greatest length is -1. -/
theorem toInt_max : toInt (2 ^ 64 - 1) = -1 := by
  rw [toInt_eq]
  decide

theorem toInt_zero : toInt 0 = 0 := by
  rw [toInt_eq]
  decide

/-- A positive result is a length. -/
theorem sizeT_pos {r : Int} (hpos : 0 < r) (hint : r < 2 ^ 31) : sizeT r = r.toNat := by
  rw [sizeT, Int.emod_eq_of_lt (by omega) (by omega)]

/-- The loop has made no call exactly when nothing was left. -/
theorem fixLoop_calls_eq_nil_iff (positioned : Bool) (length : Nat) (results : List Int)
    (offset rest : Nat) : (fixLoop positioned length results offset rest).1 = [] ↔ rest = 0 := by
  cases results with
  | nil =>
      rw [fixLoop]
      split
      · exact iff_of_false (List.cons_ne_nil _ _) (by omega)
      · exact iff_of_true rfl (by omega)
  | cons r rs =>
      rw [fixLoop]
      split
      · refine iff_of_false ?_ (by omega)
        simp only
        split
        · exact List.cons_ne_nil _ _
        · exact List.cons_ne_nil _ _
      · exact iff_of_true rfl (by omega)

/-- With nothing left the loop reports its length. -/
theorem fixLoop_of_zero (positioned : Bool) (length : Nat) (results : List Int) (offset : Nat) :
    fixLoop positioned length results offset 0 = ([], some (toInt length)) := by
  cases results <;> rfl

/-- With nothing left the loop has reached its end whatever the results. -/
theorem stop_zero (results : List Int) : stop 0 results = .reached := by
  cases results <;> rfl

/-- With nothing left no result is used. -/
theorem uses_zero (results : List Int) : uses 0 results = 0 := by
  cases results <;> rfl

/-- Where nothing is left, only the size of an `int` matters. -/
theorem transfers_zero (positioned : Bool) {length : Nat} (hlength : length < 2 ^ 64)
    (results : List Int) (offset : Nat) :
    Transfers length 0 results (fixLoop positioned length results offset 0) ↔
      Copes length 0 results := by
  rw [fixLoop_of_zero]
  constructor
  · intro h
    have hint : toInt length = length := by
      have hreturns := h.returns
      rw [stop_zero] at hreturns
      exact Option.some.inj hreturns
    refine ⟨fun _ => (toInt_eq_self_iff hlength).mp hint, fun hstop => ?_⟩
    rw [stop_zero] at hstop
    cases hstop
  · intro h
    refine ⟨?_, by rw [uses_zero]; rfl, fun c hc => absurd hc List.not_mem_nil⟩
    rw [stop_zero]
    exact congrArg some ((toInt_eq_self_iff hlength).mpr (h.int (stop_zero results)))

/-- The first call stays inside. -/
theorem call_inside {positioned : Bool} {length offset rest : Nat}
    (hsum : offset + rest = length) {c : Call}
    (hc : c = ⟨if positioned then some offset else none, rest⟩) :
    c.asked ≤ length ∧ ∀ p, c.position = some p → p ≤ length := by
  subst hc
  refine ⟨by simp only; omega, fun p hp => ?_⟩
  cases positioned with
  | false => cases hp
  | true =>
      obtain rfl := Option.some.inj hp
      omega

section FirstCall

variable (positioned : Bool) {length offset rest : Nat} (hsum : offset + rest = length)
  (hrest : rest > 0)

include hsum hrest

/-- No result yet: the call is not back. -/
theorem transfers_waiting :
    Transfers length rest [] (fixLoop positioned length [] offset rest) ↔
      Copes length rest [] := by
  have hstop : stop rest [] = .waiting := if_pos hrest
  have huses : uses rest [] = 1 := if_pos hrest
  have hloop : fixLoop positioned length [] offset rest =
      ([⟨if positioned then some offset else none, rest⟩], none) := if_pos hrest
  rw [hloop]
  refine iff_of_true ⟨by rw [hstop]; rfl, by rw [huses]; rfl, fun c hc => ?_⟩
    ⟨fun h => ?_, fun h => ?_⟩
  · exact call_inside hsum (List.mem_singleton.mp hc)
  · cases hstop.symm.trans h
  · cases hstop.symm.trans h

/-- A failed call: only a rest that wraps round ends the loop. -/
theorem transfers_failed (hlength : length < 2 ^ 64) (rs : List Int) :
    Transfers length rest (-1 :: rs) (fixLoop positioned length (-1 :: rs) offset rest) ↔
      Copes length rest (-1 :: rs) := by
  have hstop : stop rest (-1 :: rs) = .stopped (-1) := by
    rw [stop, if_pos hrest]
    rfl
  have huses : uses rest (-1 :: rs) = 1 := by
    rw [uses, if_pos hrest]
    rfl
  have hloop : fixLoop positioned length (-1 :: rs) offset rest =
      (⟨if positioned then some offset else none, rest⟩ ::
        (fixLoop positioned length rs ((offset + sizeT (-1)) % 2 ^ 64)
          ((rest + (2 ^ 64 - sizeT (-1))) % 2 ^ 64)).1,
        (fixLoop positioned length rs ((offset + sizeT (-1)) % 2 ^ 64)
          ((rest + (2 ^ 64 - sizeT (-1))) % 2 ^ 64)).2) := if_pos hrest
  have hsize : 2 ^ 64 - sizeT (-1) = 1 := rfl
  rw [hloop, hsize]
  constructor
  · intro h
    refine ⟨fun heq => absurd (hstop.symm.trans heq) nofun, fun _ => ?_⟩
    have hcalls := h.calls
    rw [huses, List.length_cons, Nat.add_eq_right, List.length_eq_zero_iff,
      fixLoop_calls_eq_nil_iff] at hcalls
    exact ⟨by omega, by omega, rfl⟩
  · intro h
    obtain ⟨hmax, hall, -⟩ := h.failure hstop
    have hwrap : (rest + 1) % 2 ^ 64 = 0 := by omega
    rw [hwrap, fixLoop_of_zero, hmax, toInt_max]
    refine ⟨by rw [hstop]; rfl, by rw [huses]; rfl, fun c hc => ?_⟩
    rw [← hmax]
    exact call_inside hsum (List.mem_singleton.mp hc)

/-- The end of the stream. -/
theorem transfers_ended (rs : List Int) :
    Transfers length rest (0 :: rs) (fixLoop positioned length (0 :: rs) offset rest) ↔
      Copes length rest (0 :: rs) := by
  have hstop : stop rest (0 :: rs) = .stopped 0 := by
    rw [stop, if_pos hrest]
    rfl
  have huses : uses rest (0 :: rs) = 1 := by
    rw [uses, if_pos hrest]
    rfl
  have hloop : fixLoop positioned length (0 :: rs) offset rest =
      ([⟨if positioned then some offset else none, rest⟩], some (toInt 0)) := if_pos hrest
  rw [hloop, toInt_zero]
  refine iff_of_true ⟨by rw [hstop]; rfl, by rw [huses]; rfl, fun c hc => ?_⟩
    ⟨fun h => absurd (hstop.symm.trans h) nofun, fun h => ?_⟩
  · exact call_inside hsum (List.mem_singleton.mp hc)
  · cases hstop.symm.trans h

/-- Some bytes: the sum of offset and rest stays, and the other results decide. -/
theorem transfers_more (hlength : length < 2 ^ 64) {r : Int} (rs : List Int) (hpos : 0 < r)
    (hle : r ≤ rest) (hint : r < 2 ^ 31) :
    (Transfers length rest (r :: rs) (fixLoop positioned length (r :: rs) offset rest) ↔
      Transfers length (rest - r.toNat) rs
        (fixLoop positioned length rs (offset + r.toNat) (rest - r.toNat))) ∧
    (Copes length rest (r :: rs) ↔ Copes length (rest - r.toNat) rs) := by
  have hnot : ¬ r ≤ 0 := by omega
  have hstop : stop rest (r :: rs) = stop (rest - r.toNat) rs := by
    rw [stop, if_pos hrest, if_neg hnot]
  have huses : uses rest (r :: rs) = uses (rest - r.toNat) rs + 1 := by
    rw [uses, if_pos hrest, if_neg hnot]
  have hloop : fixLoop positioned length (r :: rs) offset rest =
      (⟨if positioned then some offset else none, rest⟩ ::
        (fixLoop positioned length rs (offset + r.toNat) (rest - r.toNat)).1,
        (fixLoop positioned length rs (offset + r.toNat) (rest - r.toNat)).2) := by
    have hoffset : (offset + r.toNat) % 2 ^ 64 = offset + r.toNat :=
      Nat.mod_eq_of_lt (by omega)
    have hless : (rest + (2 ^ 64 - r.toNat)) % 2 ^ 64 = rest - r.toNat := by omega
    have hlen : ¬ r.toNat ≤ 0 := by omega
    rw [fixLoop, if_pos hrest, sizeT_pos hpos hint]
    simp only [if_neg hlen, hoffset, hless]
  rw [hloop]
  refine ⟨⟨fun h => ?_, fun h => ?_⟩, ⟨fun h => ?_, fun h => ?_⟩⟩
  · refine ⟨by rw [← hstop]; exact h.returns, ?_,
      fun c hc => h.inside c (List.mem_cons_of_mem _ hc)⟩
    have hcalls := h.calls
    rw [huses, List.length_cons] at hcalls
    omega
  · refine ⟨by rw [hstop]; exact h.returns, ?_, fun c hc => ?_⟩
    · rw [huses, List.length_cons, h.calls]
    · rcases List.mem_cons.mp hc with hc | hc
      · exact call_inside hsum hc
      · exact h.inside c hc
  · refine ⟨fun heq => h.int (hstop.trans heq), fun heq => ?_⟩
    obtain ⟨-, -, hhead⟩ := h.failure (hstop.trans heq)
    have hfailed : r = -1 := Option.some.inj hhead
    omega
  · refine ⟨fun heq => h.int (hstop.symm.trans heq), fun heq => ?_⟩
    obtain ⟨-, hall, -⟩ := h.failure (hstop.symm.trans heq)
    omega

end FirstCall

/-- The loop transfers what it should exactly when it copes with the results. -/
theorem transfers_iff_copes (positioned : Bool) {length : Nat} (hlength : length < 2 ^ 64)
    (results : List Int) (offset rest : Nat) (hsum : offset + rest = length)
    (hvalid : Valid rest results) :
    Transfers length rest results (fixLoop positioned length results offset rest) ↔
      Copes length rest results := by
  induction results generalizing offset rest with
  | nil =>
      by_cases hrest : rest > 0
      · exact transfers_waiting positioned hsum hrest
      · obtain rfl : rest = 0 := by omega
        exact transfers_zero positioned hlength [] offset
  | cons r rs ih =>
      by_cases hrest : rest > 0
      · rcases hvalid hrest with rfl | rfl | ⟨hpos, hle, hint, hvalid⟩
        · exact transfers_failed positioned hsum hrest hlength rs
        · exact transfers_ended positioned hsum hrest rs
        · obtain ⟨htransfers, hcopes⟩ :=
            transfers_more positioned hsum hrest hlength rs hpos hle hint
          rw [htransfers, hcopes]
          apply ih _ _ _ hvalid
          omega
      · obtain rfl : rest = 0 := by omega
        exact transfers_zero positioned hlength (r :: rs) offset

/-- **Transfers of a fixed size.**  Each of the four functions does what it has to
exactly for the results that the loop can cope with. -/
theorem fixSize_transfers_iff (length : UInt64) (results : List Int)
    (hvalid : Valid length.toNat results) :
    ∀ run ∈ [readFixSize length results, readFixSizeArray length results,
        writeFixSize length results, writeFixsize length results],
      Transfers length.toNat length.toNat results run ↔
        Copes length.toNat length.toNat results := by
  have hboth : ∀ positioned : Bool,
      Transfers length.toNat length.toNat results
          (fixLoop positioned length.toNat results 0 length.toNat) ↔
        Copes length.toNat length.toNat results := fun positioned =>
    transfers_iff_copes positioned length.toNat_lt results 0 length.toNat (Nat.zero_add _) hvalid
  intro run hrun
  simp only [List.mem_cons, List.not_mem_nil, or_false] at hrun
  rcases hrun with rfl | rfl | rfl | rfl
  · exact hboth true
  · exact hboth false
  · exact hboth true
  · exact hboth false

/-- Three bytes come in two parts. -/
theorem fixSize_transfers_in_parts :
    Transfers 3 3 [1, 2] (readFixSize 3 [1, 2]) ∧
      readFixSize 3 [1, 2] = ([⟨some 0, 3⟩, ⟨some 1, 2⟩], some 3) := by
  have hvalid : Valid (3 : UInt64).toNat [1, 2] :=
    fun _ => Or.inr (Or.inr ⟨by decide, by decide, by decide,
      fun _ => Or.inr (Or.inr ⟨by decide, by decide, by decide, trivial⟩)⟩)
  have hcopes : Copes 3 3 [1, 2] := by
    refine ⟨fun _ => by decide, fun h => ?_⟩
    have hreached : stop 3 [1, 2] = .reached := by decide
    cases hreached.symm.trans h
  refine ⟨(fixSize_transfers_iff 3 [1, 2] hvalid _ List.mem_cons_self).mpr hcopes, ?_⟩
  have hint : toInt 3 = 3 := (toInt_eq_self_iff (by decide)).mpr (by decide)
  change ([_, _], some (toInt 3)) = _
  rw [hint]
  rfl

/-- A failure after the first byte: the loop asks for the byte again and one more. -/
theorem failure_is_not_returned :
    ¬ ∀ (length : UInt64) (results : List Int), Valid length.toNat results →
      Transfers length.toNat length.toNat results (readFixSize length results) := by
  intro hall
  have hvalid : Valid (4 : UInt64).toNat [1, -1] :=
    fun _ => Or.inr (Or.inr ⟨by decide, by decide, by decide, fun _ => Or.inl rfl⟩)
  have hcalls := (hall 4 [1, -1] hvalid).calls
  revert hcalls
  decide

end Stream

end Agent
