import GServer.ByteArrayRefinement

/-!
# Receiving into a byte array

`SocketStream::read` asks the byte array for ranges to write into, lets the socket
fill them, and moves the position behind what was received.  `getWriteBuffers`
makes room without changing the size, and `setPosition` refuses a position beyond
the size: so the call throws unless the bytes received lie below the old size, and
nothing can be received at the end of the data.
-/

namespace Agent

open Faults Runs Chunks

/-- What the socket's `recv` returns and the bytes it stores, one for each it counts. -/
structure Received where
  result : Int
  bytes : List UInt8
  counted : bytes.length = result.toNat

namespace SocketStream

open Agent.ByteArray

/-- The socket fills the ranges one after the other. -/
def fill : List (List UInt8) → List IoVec → List UInt8 → List (List UInt8)
  | nodes, [], _ => nodes
  | nodes, v :: iovecs, bytes =>
      fill (nodes.modify v.node fun node => overwrite node v.base (bytes.take v.len)) iovecs
        (bytes.drop v.len)

/-- `SocketStream::read` into a byte array; `connected` is `isConnected()`. -/
def read (connected : Bool) (length : Nat) (got : Received) : Op Int := fun s =>
  if !connected then .ok (-1) s
  else
    match getWriteBuffers length s with
    | .fault => .fault
    | .throws s => .throws s
    | .ok (_, iovecs) s =>
        let s := { s with nodes := fill s.nodes iovecs got.bytes }
        if 0 < got.result then
          (setPosition (s.position + got.result.toNat) s).map fun _ => got.result
        else .ok got.result s

/-- What the call returns: the socket's result, or -1 without asking the socket. -/
def resultOf (connected : Bool) (got : Received) : Int :=
  if connected then got.result else -1

/-- The bytes that come with the result `r` are received in `s`, which leaves `s'`. -/
structure Receives (s : ByteArray) (r : Int) (bytes : List UInt8) (s' : ByteArray) : Prop where
  cur : s'.cur = s'.position / s'.baseSize
  /-- The position goes on by `r`, the size with it, and the bytes are at the old position
  with the others as they were. -/
  received : 0 < r → s'.position = s.position + r.toNat ∧
    s'.size = max s.size (s.position + r.toNat) ∧
    s'.data.take s'.size = overwrite (s.data.take s.size) s.position bytes
  /-- Without bytes the contents and the position stay. -/
  nothing : r ≤ 0 → s'.position = s.position ∧ s'.cur = s.cur ∧ s'.size = s.size ∧
    s'.data.take s'.size = s.data.take s.size

/-- The call returns the result and has received the bytes. -/
def ReadsInto (s : ByteArray) (connected : Bool) (length : Nat) (got : Received) : Prop :=
  ∃ s', read connected length got s = .ok (resultOf connected got) s' ∧
    Receives s (resultOf connected got) got.bytes s'

/-- A connected socket finds room for the length, and what it receives ends at most at the
size. -/
def BelowSize (s : ByteArray) (connected : Bool) (length : Nat) (got : Received) : Prop :=
  connected = true → Room s.baseSize s.position s.capacity length ∧
    (0 < got.result → s.position + got.result.toNat ≤ s.size)

/-! ## The ranges are filled -/

/-- Filling buffers adds no chunks. -/
theorem fill_length (iovecs : List IoVec) :
    ∀ (nodes : List (List UInt8)) (bytes : List UInt8),
      (fill nodes iovecs bytes).length = nodes.length := by
  induction iovecs with
  | nil => intro nodes bytes; rfl
  | cons v iovecs ih =>
      intro nodes bytes
      rw [fill, ih, List.length_modify]

/-- A range stays inside its node when bytes of a node are overwritten. -/
theorem inside_modify {b : Nat} {nodes : List (List UInt8)} {v w : IoVec} {xs : List UInt8}
    (huni : Uniform b nodes) (hxs : v.base + xs.length ≤ b) (hw : w.Inside nodes) :
    w.Inside (nodes.modify v.node fun node => overwrite node v.base xs) := by
  obtain ⟨node, hnode, hfit⟩ := hw
  have hmod := huni.modify (i := v.node) hxs
  have hlt := (List.getElem?_eq_some_iff.mp hnode).1
  have hlt' : w.node < (nodes.modify v.node fun node => overwrite node v.base xs).length := by
    rw [List.length_modify]
    exact hlt
  refine ⟨_, List.getElem?_eq_getElem hlt', ?_⟩
  rw [hmod _ (List.getElem_mem hlt'), ← huni node (List.mem_of_getElem? hnode)]
  exact hfit

/-- **Filling ranges.**  The ranges of consecutive positions are overwritten like one range
of the nodes' contents. -/
theorem fill_spec {b : Nat} (iovecs : List IoVec) :
    ∀ (nodes : List (List UInt8)) (bytes : List UInt8) (start len : Nat),
      Uniform b nodes → (∀ v ∈ iovecs, v.Inside nodes) →
      iovecs.flatMap (fun v => v.positions b) = List.range' start len → bytes.length ≤ len →
      start + len ≤ nodes.length * b →
      Uniform b (fill nodes iovecs bytes) ∧
        (fill nodes iovecs bytes).flatten = overwrite nodes.flatten start bytes := by
  induction iovecs with
  | nil =>
      intro nodes bytes start len huni _ hpositions hlen _
      have hzero : len = 0 := by
        have := congrArg List.length hpositions
        simpa using this.symm
      have hnil : bytes = [] := List.length_eq_zero_iff.mp (by omega)
      subst hnil
      exact ⟨huni, (overwrite_nil _ _).symm⟩
  | cons v iovecs ih =>
      intro nodes bytes start len huni hinside hpositions hlen hend
      obtain ⟨node, hnode, hfit⟩ := hinside v List.mem_cons_self
      have hnodelen : node.length = b := huni node (List.mem_of_getElem? hnode)
      have hlt := (List.getElem?_eq_some_iff.mp hnode).1
      have htake : (bytes.take v.len).length ≤ v.len := List.length_take_le _ _
      have hxs : v.base + (bytes.take v.len).length ≤ b := by omega
      rw [List.flatMap_cons] at hpositions
      have hvlen : v.len ≤ len := by
        have hlength := congrArg List.length hpositions
        simp only [List.length_append, IoVec.positions, List.length_range'] at hlength
        omega
      have hsum : v.len + (len - v.len) = len := by omega
      rw [← hsum, ← List.range'_append_1, IoVec.positions] at hpositions
      obtain ⟨hfirst, hothers⟩ := List.append_inj hpositions (by simp)
      have hflat := huni.flatten_modify hxs hlt
      obtain ⟨huni', hfill⟩ := ih _ (bytes.drop v.len) (start + v.len) (len - v.len)
        (huni.modify (i := v.node) hxs)
        (fun w hw => inside_modify huni hxs (hinside w (List.mem_cons_of_mem v hw))) hothers
        (by rw [List.length_drop]; omega) (by rw [List.length_modify]; omega)
      refine ⟨huni', hfill.trans ?_⟩
      rw [hflat]
      by_cases hnone : v.len = 0
      · rw [hnone, List.take_zero, List.drop_zero, overwrite_nil, Nat.add_zero]
      have hhead : v.node * b + v.base = start := by
        obtain ⟨k, hk⟩ := Nat.exists_eq_succ_of_ne_zero hnone
        rw [hk, List.range'_succ, List.range'_succ] at hfirst
        exact (List.cons.inj hfirst).1
      rw [hhead]
      by_cases hlast : bytes.length ≤ v.len
      · rw [List.take_of_length_le hlast, List.drop_eq_nil_of_le hlast, overwrite_nil]
      · have hfull : (bytes.take v.len).length = v.len := by
          rw [List.length_take]
          omega
        have hinside : start ≤ nodes.flatten.length := by
          rw [huni.length_flatten]
          omega
        calc overwrite (overwrite nodes.flatten start (bytes.take v.len)) (start + v.len)
              (bytes.drop v.len)
            = overwrite (overwrite nodes.flatten start (bytes.take v.len))
                (start + (bytes.take v.len).length) (bytes.drop v.len) := by rw [hfull]
          _ = overwrite nodes.flatten start (bytes.take v.len ++ bytes.drop v.len) :=
              overwrite_overwrite hinside
          _ = overwrite nodes.flatten start bytes := by rw [List.take_append_drop]

/-! ## The call -/

section Read

variable {s : ByteArray} {length : Nat} {got : Received}

/-- With room the ranges are consecutive positions from the cursor on, in nodes that are
there. -/
theorem getWriteBuffers_lists (h : Inv s) (hlen : 1 ≤ length)
    (hroom : Room s.baseSize s.position s.capacity length) :
    ∃ n iovecs s₁, getWriteBuffers length s = .ok (n, iovecs) s₁ ∧ GrowsTo s length s₁ ∧
      (∀ v ∈ iovecs, v.Inside s₁.nodes) ∧
      iovecs.flatMap (fun v => v.positions s₁.baseSize) = List.range' s.position length ∧
      s.position + length ≤ s₁.capacity := by
  obtain ⟨⟨n, iovecs⟩, s₁, hrun, hgrow⟩ := (getWriteBuffers_spec h hlen).1 hroom
  obtain ⟨f, hf⟩ := h.represents
  have hcall : PlainCall.run s (.getWriteBuffers length) = some (.buffers n iovecs, s₁) := by
    rw [PlainCall.run, hrun]
    rfl
  obtain ⟨-, hinside, hpositions⟩ := (refines_getWriteBuffers hf hcall).gives
  refine ⟨n, iovecs, s₁, hrun, hgrow, hinside, ?_, ?_⟩
  · rw [hpositions, hf.cursor]
  · rw [hgrow.capacity, grown]
    rcases hroom with hroom | ⟨hlt, hroom⟩
    · rw [if_pos hroom]
      have hpos := h.position_le
      have hsize := h.size_le
      omega
    · split <;> omega

/-- The byte array between the socket's `recv` and `setPosition`. -/
theorem filled_spec (h : Inv s) (hlen : 1 ≤ length) (hgot : got.bytes.length ≤ length)
    (hroom : Room s.baseSize s.position s.capacity length) :
    ∃ n iovecs s₁, getWriteBuffers length s = .ok (n, iovecs) s₁ ∧
      let s₂ := { s₁ with nodes := fill s₁.nodes iovecs got.bytes }
      Inv s₂ ∧ s₂.position = s.position ∧ s₂.size = s.size ∧ s₂.cur = s.cur ∧
        s₂.baseSize = s.baseSize ∧
        (s.position + got.bytes.length ≤ s.size →
          s₂.data.take s.size = overwrite (s.data.take s.size) s.position got.bytes) := by
  obtain ⟨n, iovecs, s₁, hrun, hgrow, hinside, hpositions, hend⟩ :=
    getWriteBuffers_lists h hlen hroom
  have h₁ := hgrow.inv
  rw [h₁.capacity] at hend
  obtain ⟨huni, hflat⟩ := fill_spec iovecs s₁.nodes got.bytes s.position length h₁.uniform
    hinside hpositions hgot hend
  have hcount := fill_length iovecs s₁.nodes got.bytes
  refine ⟨n, iovecs, s₁, hrun, ⟨h₁.base, huni, ?_, ?_, h₁.size_le, h₁.position_le, h₁.cur⟩,
    hgrow.position, hgrow.size, ?_, hgrow.baseSize, fun hin => ?_⟩
  · rw [hcount]
    exact h₁.nonempty
  · rw [hcount]
    exact h₁.capacity
  · dsimp only
    rw [h₁.cur, h.cur, hgrow.position, hgrow.baseSize]
  · have hlength := h.length_data
    have hsize := h.size_le
    have hpos := h.position_le
    have hdata := hgrow.data
    dsimp only [data] at hdata hlength ⊢
    have hwithin : s.size ≤ s₁.nodes.flatten.length := by
      rw [hdata, List.length_append]
      omega
    have htake : (overwrite s₁.nodes.flatten s.position got.bytes).take
          (max s.size (s.position + got.bytes.length)) =
        overwrite (s₁.nodes.flatten.take s.size) s.position got.bytes :=
      take_overwrite hpos hwithin
    rw [Nat.max_eq_left hin, hdata, List.take_append_of_le_length (by omega)] at htake
    rw [hflat, hdata, htake]

/-- What a call on a connected socket does when there is room. -/
theorem read_connected (h : Inv s) (hlen : 1 ≤ length) (hgot : got.bytes.length ≤ length)
    (hroom : Room s.baseSize s.position s.capacity length) :
    (∃ s', read true length got s = .ok got.result s' ∧ Receives s got.result got.bytes s') ↔
      (0 < got.result → s.position + got.result.toNat ≤ s.size) := by
  obtain ⟨n, iovecs, s₁, hrun, hinv, hposition, hsize, hcur, hbase, hdata⟩ :=
    filled_spec h hlen hgot hroom
  have hpos := h.position_le
  have hcounted := got.counted
  rw [hcounted] at hdata
  unfold read
  rw [if_neg (by decide), hrun]
  dsimp only at hinv hposition hsize hcur hbase hdata ⊢
  by_cases hbytes : 0 < got.result
  · rw [if_pos hbytes]
    obtain ⟨hover, hin⟩ := setPosition_spec hinv (s₁.position + got.result.toNat)
    dsimp only at hover hin
    by_cases hend : s.position + got.result.toNat ≤ s.size
    · rw [hin (by omega)]
      refine ⟨fun _ _ => hend, fun _ => ⟨_, rfl, rfl, fun _ => ⟨?_, ?_, ?_⟩, fun hle => ?_⟩⟩
      · rw [← hposition]
      · rw [Nat.max_eq_left hend]
        exact hsize
      · dsimp only [data] at hdata ⊢
        rw [hsize]
        exact hdata hend
      · omega
    · rw [hover (by omega)]
      refine ⟨?_, fun hle => absurd (hle hbytes) hend⟩
      rintro ⟨s', hthrow, -⟩
      cases hthrow
  · rw [if_neg hbytes]
    refine ⟨fun _ hlt => absurd hlt hbytes, fun _ => ⟨_, rfl, hinv.cur, fun hlt => ?_, fun _ => ?_⟩⟩
    · exact absurd hlt hbytes
    · have hzero : got.result.toNat = 0 := by omega
      have hnil : got.bytes = [] := List.length_eq_zero_iff.mp (hcounted.trans hzero)
      refine ⟨hposition, hcur, hsize, ?_⟩
      have hsame := hdata (by omega)
      have hold : overwrite (s.data.take s.size) s.position got.bytes = s.data.take s.size := by
        rw [hnil, overwrite_nil]
      rw [hold] at hsame
      dsimp only [data] at hsame ⊢
      rw [hsize]
      exact hsame

/-- **Receiving into a byte array.**  In every state reached, for every length and every
result of the socket, the call returns the result and has received its bytes exactly when
there is room and the bytes end at most at the size. -/
theorem readsInto_iff_belowSize {b : Nat} (hb : 1 ≤ b) {s : ByteArray}
    (hs : Reachable (· = new b) Step s) (connected : Bool) {length : Nat} (hlen : 1 ≤ length)
    {got : Received} (hgot : got.bytes.length ≤ length) :
    ReadsInto s connected length got ↔ BelowSize s connected length got := by
  have h := inv_of_reachable hb hs
  cases connected with
  | false =>
      refine ⟨fun _ hno => absurd hno Bool.false_ne_true, fun _ => ⟨s, rfl, ?_⟩⟩
      have hneg : ¬ 0 < resultOf false got := Int.not_lt_of_ge (by decide : (-1 : Int) ≤ 0)
      exact ⟨h.cur, fun hlt => absurd hlt hneg, fun _ => ⟨rfl, rfl, rfl, rfl⟩⟩
  | true =>
      by_cases hroom : Room s.baseSize s.position s.capacity length
      · refine (read_connected h hlen hgot hroom).trans ?_
        exact ⟨fun hend _ => ⟨hroom, hend⟩, fun hboth => (hboth rfl).2⟩
      · have hfault : read true length got s = .fault := by
          unfold read
          rw [if_neg (by decide), (getWriteBuffers_spec h hlen).2 hroom]
        refine ⟨?_, fun hboth => absurd (hboth rfl).1 hroom⟩
        rintro ⟨s', hrun, -⟩
        cases hfault.symm.trans hrun

end Read

/-- Three bytes in a node of four with the cursor at the start. -/
def soughtThree : ByteArray :=
  { baseSize := 4, position := 0, capacity := 4, size := 3, littleEndian := true
    nodes := [[1, 2, 3, 0]], cur := 0 }

/-- Two bytes are received over three that are there. -/
theorem readsInto_over_old_bytes :
    ReadsInto soughtThree true 2 ⟨2, [8, 9], rfl⟩ := by
  have hwrite : Step (new 4) (.write [1, 2, 3]) { soughtThree with position := 3 } := rfl
  have hseek : Step { soughtThree with position := 3 } (.setPosition 0) soughtThree := rfl
  have hreach : Reachable (· = new 4) Step soughtThree :=
    .next (.next (.start rfl) trivial hwrite) trivial hseek
  refine (readsInto_iff_belowSize (b := 4) (by decide) hreach true (by decide) ?_).mpr ?_
  · decide
  · exact fun _ => ⟨Or.inl (by decide), fun _ => by decide⟩

/-- A byte that is received into a new array is not counted: the call throws. -/
theorem first_byte_throws :
    (∃ s', read true 4 ⟨1, [7], rfl⟩ (new 4) = .throws s') ∧
      ¬ ReadsInto (new 4) true 4 ⟨1, [7], rfl⟩ := by
  have hrun : ∃ s', read true 4 ⟨1, [7], rfl⟩ (new 4) = .throws s' := ⟨_, rfl⟩
  refine ⟨hrun, ?_⟩
  obtain ⟨s', hthrow⟩ := hrun
  rintro ⟨s'', hok, -⟩
  cases hthrow.symm.trans hok

end SocketStream

end Agent
