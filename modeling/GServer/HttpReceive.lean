import GServer.HttpElements
import Mathlib.Data.List.Basic

/-!
# What `recvRequest` returns

For a connection whose bytes begin with a complete head, the loop of `recvRequest`
makes the callbacks of the head's elements as they are seen from the reads in which
they lie, and it ends with the read that holds the last byte of the head.  The body
is then what was read beyond the head and what `readFixSize` adds to it.
-/

namespace Agent

open Pieces

namespace Http

/-! ## The connection -/

section Connection

variable {sock : Socket} (h : AllNonempty sock)
include h

/-- A read takes what is in front. -/
theorem read_eq (n : Nat) :
    sock.read n = (front n sock, dropFront (front n sock).length sock) := by
  cases sock with
  | nil => rfl
  | cons piece rest =>
      rw [Socket.read, front, List.length_take, dropFront]
      by_cases hle : piece.length ≤ n
      · rw [if_pos hle, if_pos (by omega), Nat.min_eq_right hle, Nat.sub_self,
          dropFront_zero h.tail, List.take_of_length_le hle]
      · rw [if_neg hle, Nat.min_eq_left (by omega), if_neg (by omega)]

/-- The loop takes as many bytes as it is asked for, if they come. -/
theorem readFixLoop_eq {n : Nat} (hn : n ≤ sock.flatten.length) :
    sock.readFixLoop n = some (sock.flatten.take n, dropFront n sock) := by
  induction sock generalizing n with
  | nil =>
      obtain rfl : n = 0 := by simpa using hn
      rfl
  | cons piece rest ih =>
      have hpiece := h.length_pos
      rw [List.flatten_cons, List.length_append] at hn
      cases n with
      | zero =>
          rw [dropFront_zero h]
          rfl
      | succ n =>
          rw [Socket.readFixLoop, if_neg (h piece List.mem_cons_self), List.flatten_cons,
            dropFront]
          by_cases hle : piece.length ≤ n + 1
          · rw [if_pos hle, if_pos hle, ih h.tail (by omega), List.take_append,
              List.take_of_length_le hle]
            rfl
          · rw [if_neg hle, if_neg hle, List.take_append_of_le_length (by omega)]

end Connection

/-! ## The callbacks -/

section Callbacks

variable {M : Type} [KeyedStore M]

/-- A header leaves the body and the connection as they are. -/
theorem setHeader_keeps {r r' : HttpRequest M} {key val : Str} (h : r.setHeader key val = some r') :
    r'.body = r.body ∧ r'.close = r.close := by
  obtain ⟨m, -, rfl⟩ := Option.map_eq_some_iff.mp h
  exact ⟨rfl, rfl⟩

/-- A callback never takes an error back and leaves the body and the mark `m_close`
alone. -/
theorem run_keeps {t t' : Target M} {cb : Callback} (h : cb.run t = some t') :
    (t.error ≠ 0 → t'.error ≠ 0) ∧ t'.data.body = t.data.body ∧
      t'.data.close = t.data.close := by
  cases cb with
  | requestMethod text =>
      simp only [Callback.run, onRequestMethod] at h
      split at h <;> cases h
      · exact ⟨fun _ => Nat.succ_ne_zero 999, rfl, rfl⟩
      · exact ⟨id, rfl, rfl⟩
  | requestUri =>
      cases h
      exact ⟨id, rfl, rfl⟩
  | fragment text | requestPath text | queryString text =>
      obtain ⟨v, -, rfl⟩ := Option.map_eq_some_iff.mp h
      exact ⟨id, rfl, rfl⟩
  | httpVersion text =>
      obtain ⟨v, -, rfl⟩ := Option.map_eq_some_iff.mp h
      split
      · exact ⟨id, rfl, rfl⟩
      · split
        · exact ⟨id, rfl, rfl⟩
        · exact ⟨fun _ => Nat.succ_ne_zero 1000, rfl, rfl⟩
  | httpField field value =>
      simp only [Callback.run, onRequestHttpField] at h
      split at h
      · cases h
        exact ⟨id, rfl, rfl⟩
      · obtain ⟨v, -, hset⟩ := Option.bind_eq_some_iff.mp h
        obtain ⟨data, hdata, rfl⟩ := Option.map_eq_some_iff.mp hset
        exact ⟨id, setHeader_keeps hdata⟩

/-- The callbacks never take an error back, and leave the body and the connection as they are.
-/
theorem runCallbacks_keeps {callbacks : List Callback} {t t' : Target M}
    (h : runCallbacks t callbacks = some t') :
    (t.error ≠ 0 → t'.error ≠ 0) ∧ t'.data.body = t.data.body ∧
      t'.data.close = t.data.close := by
  induction callbacks generalizing t with
  | nil =>
      cases h
      exact ⟨id, rfl, rfl⟩
  | cons cb callbacks ih =>
      rw [runCallbacks, List.foldlM_cons] at h
      obtain ⟨t₁, hrun, hrest⟩ := Option.bind_eq_some_iff.mp h
      obtain ⟨herror, hbody, hclose⟩ := run_keeps hrun
      obtain ⟨herror', hbody', hclose'⟩ := ih hrest
      exact ⟨fun h0 => herror' (herror h0), hbody'.trans hbody, hclose'.trans hclose⟩

/-- Callbacks are run in two parts. -/
theorem runCallbacks_append (t : Target M) (cs cs' : List Callback) :
    runCallbacks t (cs ++ cs') = (runCallbacks t cs).bind fun t' => runCallbacks t' cs' := by
  rw [runCallbacks, List.foldlM_append]
  rfl

end Callbacks

/-! ## The loop -/

section Loop

variable {σ M : Type}

/-- The loop stands before a read that begins at `β`. -/
structure AtRead (c : RecvConfig σ) (data : Str) (starts : Nat → Nat) (β : Nat) (sock : Socket)
    (parser : HttpRequestParser σ M) (s : σ) (m : Marks) : Prop where
  rest : sock.flatten = data.drop β
  pieces : AllNonempty sock
  begins : ∀ i, starts (β + i) = β + startOf c.bufferSize sock i
  cs : parser.parser.cs = .running s
  registers : { parser.parser.registers with mark := 0, fieldLen := 0, fieldStart := 0 } =
    m.registers starts β
  error : parser.target.error = 0
  within : m.Within β

variable {c : RecvConfig σ} {data : Str} {starts : Nat → Nat} {β : Nat} {sock : Socket}
  {parser : HttpRequestParser σ M} {s : σ} {m : Marks}

/-- Offsets that are set to zero are those of a read that begins after them all. -/
theorem registers_zeroed {β' : Nat} (h : m.Within β') :
    { m.registers starts β with mark := 0, fieldLen := 0, fieldStart := 0 } =
      m.registers starts β' := by
  obtain ⟨h1, h2, -, h4, -⟩ := h
  simp only [Marks.registers, Nat.sub_eq_zero_of_le h1, Nat.sub_eq_zero_of_le h2,
    Nat.sub_eq_zero_of_le h4, Nat.zero_sub]

/-- What is left of the connection after the read. -/
theorem AtRead.next (hB : 0 < c.bufferSize) (h : AtRead c data starts β sock parser s m)
    {m' : Marks} (hm : m'.Within (β + (front c.bufferSize sock).length)) (s' : σ)
    {t : Target M} (herror : t.error = 0) :
    AtRead c data starts (β + (front c.bufferSize sock).length)
      (dropFront (front c.bufferSize sock).length sock)
      ⟨⟨.running s', m'.registers starts β⟩, t⟩ s' m' where
  rest := by rw [flatten_dropFront, h.rest, List.drop_drop]
  pieces := h.pieces.dropFront _
  begins i := by
    rw [Nat.add_assoc, h.begins, (bounds_after hB h.pieces i).1, Nat.add_assoc]
  cs := rfl
  registers := registers_zeroed hm
  error := herror
  within := hm

variable [KeyedStore M]

/-- The whole connection before the first read. -/
theorem atRead_start (c : RecvConfig σ) {sock : Socket} (h : AllNonempty sock) :
    AtRead c sock.flatten (startOf c.bufferSize sock) 0 sock
      (HttpRequestParser.new c.tok : HttpRequestParser σ M) c.tok.start Marks.zero where
  rest := rfl
  pieces := h
  begins i := by rw [Nat.zero_add, Nat.zero_add]
  cs := rfl
  registers := by
    simp [HttpRequestParser.new, httpParserInit, Marks.registers, Marks.zero]
  error := rfl
  within := Marks.zero_within 0

/-- One call of `execute`, on the bytes of one read. -/
theorem execute_eq (h : AtRead c data starts β sock parser s m) :
    parser.execute c.tok (front c.bufferSize sock) =
      (runCallbacks parser.target
        ((scan c.tok (front c.bufferSize sock) β s m).elements.filterMap
          (seen starts data))).map fun target =>
        (⟨⟨(scan c.tok (front c.bufferSize sock) β s m).status,
            (scan c.tok (front c.bufferSize sock) β s m).marks.registers starts β⟩, target⟩,
          (scan c.tok (front c.bufferSize sock) β s m).stop - β) := by
  have hbuffer : front c.bufferSize sock =
      (data.drop β).take (front c.bufferSize sock).length := by
    rw [← h.rest, ← front_append c.bufferSize sock, List.take_left]
  have hstarts : ∀ i, i < (front c.bufferSize sock).length → starts (β + i) = β := by
    intro i hi
    rw [h.begins, (bounds_front hi).1, Nat.add_zero]
  have hloop := execLoop_eq hbuffer c.tok (front c.bufferSize sock) 0 s m rfl (Nat.zero_le _)
    hstarts
  rw [HttpRequestParser.execute, httpParserExecute, h.cs, h.registers]
  simp only [hloop, Nat.add_zero]

/-- How the loop ends where a scan of the bytes to come finishes: with the callbacks of its
elements made and what the last read holds beyond the head, unless a callback reports
an error or throws. -/
def Ends (c : RecvConfig σ) (data : Str) (starts : Nat → Nat) (β : Nat) (sock : Socket)
    (target : Target M) (sc : Scan σ) (result : Head σ M) : Prop :=
  let calls := sc.elements.filterMap (seen starts data)
  let stop := endOf c.bufferSize sock (sc.stop - 1 - β)
  (∃ t r, runCallbacks target calls = some t ∧ t.error = 0 ∧
      result = .finished ⟨⟨.finished, r⟩, t⟩ ((data.take (β + stop)).drop sc.stop)
        (dropFront stop sock)) ∨
    ((∀ t, runCallbacks target calls = some t → t.error ≠ 0) ∧
      (result = .null ∨ result = .undefined))

/-- One turn of the loop, on the bytes of one read. -/
theorem recvLoop_turn (hB : 0 < c.bufferSize) (h : AtRead c data starts β sock parser s m)
    (hne : sock ≠ []) (fuel : Nat) {sc : Scan σ}
    (hsc : scan c.tok (front c.bufferSize sock) β s m = sc) :
    (runCallbacks parser.target (sc.elements.filterMap (seen starts data)) = none →
      recvLoop c (fuel + 1) parser [] sock = .undefined) ∧
    (∀ t, runCallbacks parser.target (sc.elements.filterMap (seen starts data)) = some t →
      (t.error ≠ 0 → recvLoop c (fuel + 1) parser [] sock = .null) ∧
      (t.error = 0 → sc.status = .finished → recvLoop c (fuel + 1) parser [] sock =
        .finished ⟨⟨sc.status, sc.marks.registers starts β⟩, t⟩
          ((front c.bufferSize sock).drop (sc.stop - β))
          (dropFront (front c.bufferSize sock).length sock)) ∧
      (t.error = 0 → ∀ s', sc.status = .running s' → recvLoop c (fuel + 1) parser [] sock =
        recvLoop c fuel ⟨⟨sc.status, sc.marks.registers starts β⟩, t⟩ []
          (dropFront (front c.bufferSize sock).length sock))) := by
  have hfront := front_ne_nil hB h.pieces hne
  have hread : sock.read (c.bufferSize - ([] : Str).length) =
      (front c.bufferSize sock, dropFront (front c.bufferSize sock).length sock) :=
    read_eq h.pieces c.bufferSize
  have hexec := execute_eq h
  have hstop := scan_stop c.tok (front c.bufferSize sock) β s m
  have hlen : (front c.bufferSize sock).length ≤ c.bufferSize := by
    cases sock with
    | nil => exact Nat.zero_le _
    | cons piece rest =>
        rw [front, List.length_take]
        exact Nat.min_le_left _ _
  rw [hsc] at hexec hstop
  obtain ⟨-, hle, hrunning, hfinished⟩ := hstop
  rw [recvLoop, hread]
  dsimp only
  rw [if_neg hfront, List.nil_append, hexec]
  refine ⟨fun hnone => by rw [hnone]; rfl, fun t ht => ?_⟩
  rw [ht]
  refine ⟨fun herror => ?_, fun herror hfin => ?_, fun herror s' hrun => ?_⟩
  · simp [HttpRequestParser.hasError, herror]
  · have hpos := hfinished hfin
    have hfull : (front c.bufferSize sock).length - (sc.stop - β) ≠ c.bufferSize := by omega
    simp [HttpRequestParser.hasError, HttpRequestParser.isFinished, herror, hfin, hfull]
  · have hall : sc.stop - β = (front c.bufferSize sock).length := by
      rw [hrunning s' hrun, Nat.add_sub_cancel_left]
    simp [HttpRequestParser.hasError, HttpRequestParser.isFinished, herror, hrun, hall]
    omega

/-- The read in which the head ends. -/
theorem ends_of_finished {sc : Scan σ} {t : Target M} {r : Registers} {result : Head σ M}
    (h : sock.flatten = data.drop β) (hlt : β < sc.stop)
    (hle : sc.stop ≤ β + (front c.bufferSize sock).length)
    (hcalls : runCallbacks parser.target (sc.elements.filterMap (seen starts data)) = some t)
    (herror : t.error = 0)
    (hresult : result = .finished ⟨⟨.finished, r⟩, t⟩
      ((front c.bufferSize sock).drop (sc.stop - β))
      (dropFront (front c.bufferSize sock).length sock)) :
    Ends c data starts β sock parser.target sc result := by
  have hend : endOf c.bufferSize sock (sc.stop - 1 - β) = (front c.bufferSize sock).length :=
    (bounds_front (by omega)).2
  have hbytes : front c.bufferSize sock = (data.drop β).take (front c.bufferSize sock).length := by
    rw [← h, ← front_append c.bufferSize sock, List.take_left]
  have hrest : (data.take (β + (front c.bufferSize sock).length)).drop sc.stop =
      (front c.bufferSize sock).drop (sc.stop - β) := by
    have hsum : sc.stop = β + (sc.stop - β) := by omega
    rw [hsum, ← List.drop_drop, List.drop_take, Nat.add_sub_cancel_left, ← hbytes,
      Nat.add_sub_cancel_left]
  refine Or.inl ⟨t, r, hcalls, herror, ?_⟩
  rw [hend, hrest]
  exact hresult

/-- A read before the one in which the head ends. -/
theorem Ends.earlier (hB : 0 < c.bufferSize) (hpieces : AllNonempty sock) {es : List Element}
    {sc : Scan σ} {t : Target M} {result : Head σ M}
    (hlt : β + (front c.bufferSize sock).length < sc.stop)
    (hcalls : runCallbacks parser.target (es.filterMap (seen starts data)) = some t)
    (h : Ends c data starts (β + (front c.bufferSize sock).length)
      (dropFront (front c.bufferSize sock).length sock) t sc result) :
    Ends c data starts β sock parser.target (sc.prepend es) result := by
  have hend := (bounds_after hB hpieces
    (sc.stop - 1 - (β + (front c.bufferSize sock).length))).2
  have hsum : (front c.bufferSize sock).length +
      (sc.stop - 1 - (β + (front c.bufferSize sock).length)) = sc.stop - 1 - β := by omega
  rw [hsum] at hend
  have hall : runCallbacks parser.target
      ((sc.prepend es).elements.filterMap (seen starts data)) =
      runCallbacks t (sc.elements.filterMap (seen starts data)) := by
    rw [Scan.prepend_elements, List.filterMap_append, runCallbacks_append, hcalls]
    rfl
  unfold Ends at h ⊢
  dsimp only at h ⊢
  rw [hall, Scan.prepend_stop, hend]
  rw [dropFront_dropFront hpieces, Nat.add_assoc] at h
  exact h

/-- **The loop.**  If the bytes to come finish a head, the loop ends as it should. -/
theorem recvLoop_spec (hB : 0 < c.bufferSize) :
    ∀ (fuel β : Nat) (sock : Socket) (parser : HttpRequestParser σ M) (s : σ) (m : Marks),
      AtRead c data starts β sock parser s m → sock.flatten.length < fuel →
      (scan c.tok (data.drop β) β s m).status = .finished →
      Ends c data starts β sock parser.target (scan c.tok (data.drop β) β s m)
        (recvLoop c fuel parser [] sock) := by
  intro fuel
  induction fuel with
  | zero => intro _ _ _ _ _ _ hfuel; omega
  | succ fuel ih =>
      intro β sock parser s m h hfuel hfin
      have hne : sock ≠ [] := by
        rintro rfl
        rw [← h.rest] at hfin
        cases hfin
      have hpos : 0 < (front c.bufferSize sock).length :=
        List.length_pos_iff.mpr (front_ne_nil hB h.pieces hne)
      have hdrop : (dropFront (front c.bufferSize sock).length sock).flatten =
          data.drop (β + (front c.bufferSize sock).length) := by
        rw [flatten_dropFront, h.rest, List.drop_drop]
      have hsplit : data.drop β =
          front c.bufferSize sock ++ data.drop (β + (front c.bufferSize sock).length) := by
        rw [← hdrop, front_append, h.rest]
      have hstop := scan_stop c.tok (front c.bufferSize sock) β s m
      have hmarks := (scan_within c.tok (front c.bufferSize sock) β s h.within).1
      generalize hsc : scan c.tok (front c.bufferSize sock) β s m = sc at hstop hmarks
      obtain ⟨-, hle, -, hfinished⟩ := hstop
      obtain ⟨hnone, hsome⟩ := recvLoop_turn hB h hne fuel hsc
      -- what the scan of all the bytes is depends on how the scan of this read ends
      have hover : (∀ s', sc.status ≠ .running s') →
          scan c.tok (data.drop β) β s m = sc := by
        intro hnot
        rw [hsplit, scan_append_of_over (by rwa [hsc]), hsc]
      cases hstatus : sc.status with
      | error =>
          rw [hover (by rw [hstatus]; nofun), hstatus] at hfin
          cases hfin
      | finished =>
          rw [hover (by rw [hstatus]; nofun)]
          cases hcalls : runCallbacks parser.target (sc.elements.filterMap (seen starts data)) with
          | none =>
              refine Or.inr ⟨fun t ht => ?_, Or.inr (hnone hcalls)⟩
              exact absurd (hcalls.symm.trans ht) nofun
          | some t =>
              obtain ⟨hbad, hgood, -⟩ := hsome t hcalls
              by_cases herror : t.error = 0
              · refine ends_of_finished (r := sc.marks.registers starts β) h.rest
                  (hfinished hstatus) hle hcalls herror ?_
                rw [hgood herror hstatus, hstatus]
              · refine Or.inr ⟨fun t' ht' => ?_, Or.inl (hbad herror)⟩
                cases hcalls.symm.trans ht'
                exact herror
      | running s' =>
          have hgo : scan c.tok (data.drop β) β s m =
              (scan c.tok (data.drop (β + (front c.bufferSize sock).length))
                (β + (front c.bufferSize sock).length) s' sc.marks).prepend sc.elements := by
            rw [hsplit, scan_append_of_running (by rw [hsc, hstatus]), hsc]
          rw [hgo] at hfin ⊢
          rw [Scan.prepend_status] at hfin
          have hlt := (scan_stop _ _ _ _ _).2.2.2 hfin
          cases hcalls : runCallbacks parser.target (sc.elements.filterMap (seen starts data)) with
          | none =>
              refine Or.inr ⟨fun t ht => ?_, Or.inr (hnone hcalls)⟩
              rw [Scan.prepend_elements, List.filterMap_append, runCallbacks_append, hcalls] at ht
              cases ht
          | some t =>
              obtain ⟨hbad, -, hgood⟩ := hsome t hcalls
              by_cases herror : t.error = 0
              · rw [hgood herror s' hstatus, hstatus]
                have hfewer : (dropFront (front c.bufferSize sock).length sock).flatten.length <
                    fuel := by
                  have hlen := congrArg List.length
                    (front_append c.bufferSize sock)
                  rw [List.length_append] at hlen
                  omega
                exact Ends.earlier hB h.pieces hlt hcalls
                  (ih _ _ _ s' sc.marks (h.next hB hmarks s' herror) hfewer hfin)
              · refine Or.inr ⟨fun t' ht' => ?_, Or.inl (hbad herror)⟩
                rw [Scan.prepend_elements, List.filterMap_append, runCallbacks_append, hcalls] at ht'
                exact (runCallbacks_keeps ht').1 herror

end Loop

/-! ## The head -/

section Whole

variable {σ M : Type} {c : RecvConfig σ} {sock : Socket}

/-- The scan of a byte string from its beginning. -/
def headScan (c : RecvConfig σ) (data : Str) : Scan σ :=
  scan c.tok data 0 c.tok.start Marks.zero

/-- `readFixSize` reports success for this many bytes. -/
def ReadsBack (n : Nat) : Prop :=
  n = 0 ∨ 0 < toInt n

instance (n : Nat) : Decidable (ReadsBack n) :=
  inferInstanceAs (Decidable (_ ∨ _))

/-- The request with its body, where it has one. -/
def withBody (r : HttpRequest M) (length : Int) (body : Str) : HttpRequest M :=
  if 0 < length then { r with body := body } else r

theorem withBody_body (r : HttpRequest M) (length : Int) (body : Str) :
    { withBody r length body with body := r.body } = r := by
  unfold withBody
  split <;> rfl

/-! ## The body -/

/-- **The body.**  `unresolved` is what lies between the head and `stop`, and `length` bytes
of body follow the head. -/
theorem recvBody_spec (r : HttpRequest M) {data : Str} {sock : Socket} {head stop : Nat}
    (length : Int) (hpieces : AllNonempty sock) (hflat : sock.flatten = data) (hhead : head ≤ stop)
    (hstop : stop ≤ data.length) (hlength : head + length.toNat ≤ data.length) :
    (stop ≤ head + length.toNat → ReadsBack (head + length.toNat - stop) →
      recvBody r ((data.take stop).drop head) (dropFront stop sock) length =
        (.request (withBody r length ((data.drop head).take length.toNat)) [],
          dropFront (head + length.toNat) sock)) ∧
    (stop ≤ head + length.toNat → ¬ ReadsBack (head + length.toNat - stop) →
      recvBody r ((data.take stop).drop head) (dropFront stop sock) length = (.null, [])) ∧
    (head + length.toNat < stop → ∃ unused, unused ≠ [] ∧
      recvBody r ((data.take stop).drop head) (dropFront stop sock) length =
        (.request (withBody r length ((data.drop head).take length.toNat)) unused,
          dropFront stop sock)) := by
  have hlen : ((data.take stop).drop head).length = stop - head := by
    rw [List.length_drop, List.length_take, Nat.min_eq_left hstop]
  have hbytes : (data.take stop).drop head = (data.drop head).take (stop - head) := by
    rw [List.drop_take]
  unfold recvBody withBody
  rw [hlen]
  by_cases hpos : 0 < length
  · rw [if_pos hpos, if_pos hpos]
    have hcast : ((stop - head : Nat) : Int) ≤ length ↔ stop ≤ head + length.toNat := by omega
    have hrest : length.toNat - (stop - head) = head + length.toNat - stop := by omega
    have hfix : Socket.readFixSize (dropFront stop sock) (head + length.toNat - stop) =
        (toInt (head + length.toNat - stop),
          (data.drop stop).take (head + length.toNat - stop),
          dropFront (stop + (head + length.toNat - stop)) sock) := by
      have hflat' : (dropFront stop sock).flatten = data.drop stop := by
        rw [flatten_dropFront, hflat]
      rw [Socket.readFixSize, readFixLoop_eq (hpieces.dropFront stop) (by
        rw [hflat', List.length_drop]
        omega), hflat', dropFront_dropFront hpieces]
    rw [hrest]
    refine ⟨fun hle hback => ?_, fun hle hno => ?_, fun hlt => ?_⟩
    · rw [if_pos (hcast.mpr hle)]
      by_cases hzero : head + length.toNat - stop = 0
      · have hsame : head + length.toNat = stop := by omega
        have hsize : length.toNat = stop - head := by omega
        dsimp only
        rw [if_neg (by omega), hbytes, hsame, hsize]
      · have hbody : (data.drop head).take (stop - head) ++
            (data.drop stop).take (head + length.toNat - stop) =
            (data.drop head).take length.toNat := by
          have hsize : length.toNat = (stop - head) + (head + length.toNat - stop) := by omega
          have hdrop : (data.drop head).drop (stop - head) = data.drop stop := by
            rw [List.drop_drop]
            congr 1
            omega
          rw [hsize, List.take_add, hdrop, ← hsize]
        have hsum : stop + (head + length.toNat - stop) = head + length.toNat := by omega
        have hcount : ¬ toInt (head + length.toNat - stop) ≤ 0 := by
          rcases hback with hback | hback <;> omega
        dsimp only
        rw [if_pos (by omega), hfix]
        dsimp only
        rw [if_neg hcount, hbytes, hbody, hsum]
    · have hzero : head + length.toNat - stop ≠ 0 := fun h0 => hno (Or.inl h0)
      have hcount : toInt (head + length.toNat - stop) ≤ 0 :=
        Int.not_lt.mp fun h0 => hno (Or.inr h0)
      rw [if_pos (hcast.mpr hle)]
      dsimp only
      rw [if_pos (by omega), hfix]
      dsimp only
      rw [if_pos hcount]
    · have hover : ¬ ((stop - head : Nat) : Int) ≤ length := fun h0 => by
        have := hcast.mp h0
        omega
      rw [if_neg hover]
      refine ⟨((data.take stop).drop head).drop length.toNat, ?_, ?_⟩
      · rw [← List.length_pos_iff, List.length_drop, hlen]
        omega
      · rw [hbytes, List.take_take, Nat.min_eq_left (by omega)]
  · have hzero : length.toNat = 0 := by omega
    rw [if_neg hpos, if_neg hpos, hzero, Nat.add_zero]
    refine ⟨fun hle _ => ?_, fun hle hno => ?_, fun hlt => ?_⟩
    · obtain rfl : stop = head := Nat.le_antisymm hle hhead
      rw [hbytes, Nat.sub_self, List.take_zero]
    · exact absurd (Or.inl (by omega)) hno
    · refine ⟨_, ?_, rfl⟩
      rw [← List.length_pos_iff, hlen]
      omega

/-- Of the bytes only what precedes a callback counts. -/
theorem seen_append {starts : Nat → Nat} {d : Str} {e : Element} (hpos : e.pos < d.length)
    (hle : starts e.pos ≤ e.pos) (more : Str) : seen starts (d ++ more) e = seen starts d e := by
  refine callback?_congr _ _ ?_
  have htake : ∀ xs : Str, (xs.drop (starts e.pos)).take (e.pos - starts e.pos + 1) =
      (xs.take (e.pos + 1)).drop (starts e.pos) := by
    intro xs
    rw [List.drop_take]
    congr 1
    omega
  rw [htake, htake, List.take_append_of_le_length (by omega)]

/-- Of the reads only their beginnings within the head count. -/
theorem seen_congr {starts starts' : Nat → Nat} {d : Str} {e : Element} {q : Nat}
    (h : ∀ i, i < q → starts i = starts' i) (hpos : e.pos < q) (hmarks : e.marks.Within e.pos) :
    seen starts d e = seen starts' d e := by
  have hquery := hmarks.queryStart
  simp only [seen, Marks.registers, h e.pos hpos, h e.marks.queryStart (by omega)]

/-- The scan of a whole head does not see what comes after it. -/
theorem headScan_append {d : Str} (hfin : (headScan c d).status = .finished) (more : Str) :
    headScan c (d ++ more) = headScan c d := by
  refine scan_append_of_over (fun s' => ?_) more
  rw [show (scan c.tok d 0 c.tok.start Marks.zero).status = .finished from hfin]
  nofun

/-- The scan stops within the text. -/
theorem headScan_le (c : RecvConfig σ) (d : Str) : (headScan c d).stop ≤ d.length := by
  have := (scan_stop c.tok d 0 c.tok.start Marks.zero).2.1
  rwa [Nat.zero_add] at this

/-- The elements of a head end before it does, and their marks lie before their ends. -/
theorem headScan_within (c : RecvConfig σ) (d : Str) :
    ∀ e ∈ (headScan c d).elements, e.pos < (headScan c d).stop ∧ e.marks.Within e.pos := by
  intro e he
  have := (scan_within c.tok d 0 c.tok.start (Marks.zero_within 0)).2 e he
  exact this.2

/-! ## The whole call -/

variable [KeyedStore M]

/-- What the callbacks of the head make of a new request, as they are seen when the read of
a position begins at `starts` of it. -/
def made (M : Type) [KeyedStore M] (c : RecvConfig σ) (starts : Nat → Nat) (data : Str) :
    Option (Target M) :=
  runCallbacks ⟨HttpRequest.new 0x11 true, 0⟩ ((headScan c data).elements.filterMap (seen starts data))

/-- **A well-formed request.**  The byte string is a head that fits the buffer and that no
callback refuses, followed by as many bytes as `content-length` says; `r` is what it
says. -/
structure WellFormed (c : RecvConfig σ) (d : Str) (r : HttpRequest M) : Prop where
  finished : (headScan c d).status = .finished
  fits : (headScan c d).stop ≤ c.bufferSize
  content : ∃ t length, made M c (fun _ => 0) d = some t ∧ t.error = 0 ∧
    getContentLength c.lexicalCast t.data = some length ∧
    d.length = (headScan c d).stop + length.toNat ∧
    r = withBody t.data length (d.drop (headScan c d).stop)

/-- A head is not empty. -/
theorem WellFormed.head_pos {c : RecvConfig σ} {d : Str} {r : HttpRequest M}
    (h : WellFormed c d r) : 0 < (headScan c d).stop :=
  (scan_stop _ _ _ _ _).2.2.2 h.finished

/-- The buffer that a head fits in is not empty. -/
theorem WellFormed.buffer_pos {c : RecvConfig σ} {d : Str} {r : HttpRequest M}
    (h : WellFormed c d r) : 0 < c.bufferSize :=
  Nat.lt_of_lt_of_le h.head_pos h.fits

/-- **`recvRequest`.**  For a connection whose bytes finish a head: where the callbacks, as
they are seen from the reads, make a request without error, it goes on to the body;
otherwise it returns no request. -/
theorem recvRequest_spec (hB : 0 < c.bufferSize) (hpieces : AllNonempty sock)
    (hfin : (headScan c sock.flatten).status = .finished) :
    (∀ t, made M c (startOf c.bufferSize sock) sock.flatten = some t → t.error = 0 →
      recvRequest c sock =
        match getContentLength c.lexicalCast t.data with
        | none => (.undefined, [])
        | some length =>
            recvBody t.data
              ((sock.flatten.take (endOf c.bufferSize sock
                ((headScan c sock.flatten).stop - 1))).drop (headScan c sock.flatten).stop)
              (dropFront (endOf c.bufferSize sock ((headScan c sock.flatten).stop - 1)) sock)
              length) ∧
    ((∀ t, made M c (startOf c.bufferSize sock) sock.flatten = some t → t.error ≠ 0) →
      (recvRequest c sock : Received M × Socket).1.request? = none) := by
  have hstart : AtRead c sock.flatten (startOf c.bufferSize sock) 0 sock
      (HttpRequestParser.new c.tok : HttpRequestParser σ M) c.tok.start Marks.zero :=
    atRead_start c hpieces
  have hends := recvLoop_spec hB (sock.flatten.length + 1) 0 sock _ _ _ hstart
    (Nat.lt_succ_self _) (by rw [List.drop_zero]; exact hfin)
  rw [List.drop_zero] at hends
  rcases hends with ⟨t, r, hmade, herror, hloop⟩ | ⟨hbad, hloop⟩
  · refine ⟨fun t' ht' _ => ?_, fun hnone => absurd herror (hnone t hmade)⟩
    obtain rfl : t = t' := Option.some.inj (hmade.symm.trans ht')
    rw [recvRequest, hloop, Nat.sub_zero, Nat.zero_add]
    rfl
  · refine ⟨fun t ht herror => absurd herror (hbad t ht), fun _ => ?_⟩
    rw [recvRequest]
    rcases hloop with hloop | hloop
    · rw [hloop]
      rfl
    · rw [hloop]
      rfl

/-- The callbacks of a head read by itself. -/
theorem made_eq {d : Str} {starts : Nat → Nat} (more : Str)
    (hfin : (headScan c d).status = .finished)
    (h : ∀ i, i < (headScan c d).stop → starts i = 0) :
    made M c starts (d ++ more) = made M c (fun _ => 0) d := by
  rw [made, made, headScan_append hfin]
  congr 1
  refine List.filterMap_congr fun e he => ?_
  obtain ⟨hpos, hmarks⟩ := headScan_within c d e he
  have hlen := headScan_le c d
  rw [seen_congr h hpos hmarks, seen_append (by omega) (Nat.zero_le _)]

/-- **`recvRequest` on a well-formed request.**  Where the callbacks make of the request what
they make of it in one read, the request is returned; bytes beyond it that came with
the end of its head are lost. -/
theorem recvRequest_of_wellFormed {d more : Str} {r : HttpRequest M} (hpieces : AllNonempty sock)
    (hflat : sock.flatten = d ++ more) (h : WellFormed c d r)
    (hmade : made M c (startOf c.bufferSize sock) (d ++ more) = made M c (fun _ => 0) d) :
    (endOf c.bufferSize sock ((headScan c d).stop - 1) ≤ d.length →
      ReadsBack (d.length - endOf c.bufferSize sock ((headScan c d).stop - 1)) →
      recvRequest c sock = (.request r [], dropFront d.length sock)) ∧
    (endOf c.bufferSize sock ((headScan c d).stop - 1) ≤ d.length →
      ¬ ReadsBack (d.length - endOf c.bufferSize sock ((headScan c d).stop - 1)) →
      recvRequest c sock = ((.null, []) : Received M × Socket)) ∧
    (d.length < endOf c.bufferSize sock ((headScan c d).stop - 1) →
      ∃ unused, unused ≠ [] ∧ recvRequest c sock = (.request r unused,
        dropFront (endOf c.bufferSize sock ((headScan c d).stop - 1)) sock)) := by
  have hhead := h.head_pos
  have hle := headScan_le c d
  have hB := h.buffer_pos
  obtain ⟨t, length, ht, herror, hlength, hsize, rfl⟩ := h.content
  have hscan := headScan_append h.finished more
  have hspec := recvRequest_spec (M := M) hB hpieces (by rw [hflat, hscan]; exact h.finished)
  rw [hflat, hscan] at hspec
  have hrun := hspec.1 t (hmade.trans ht) herror
  rw [hlength] at hrun
  dsimp only at hrun
  have hlast : (headScan c d).stop - 1 < sock.flatten.length := by
    rw [hflat, List.length_append]
    omega
  obtain ⟨hend, hwithin⟩ := endOf_bounds hB hlast
  rw [hflat] at hwithin
  have hbody : ((d ++ more).drop (headScan c d).stop).take length.toNat =
      d.drop (headScan c d).stop := by
    have hrest : length.toNat = (d.drop (headScan c d).stop).length := by
      rw [List.length_drop]
      omega
    rw [List.drop_append_of_le_length hle, hrest, List.take_left]
  have hhead' : (headScan c d).stop ≤ endOf c.bufferSize sock ((headScan c d).stop - 1) := by omega
  have hspec' := recvBody_spec t.data length hpieces hflat hhead'
    hwithin (by rw [List.length_append]; omega)
  rw [← hsize, hbody, ← hrun] at hspec'
  exact hspec'

end Whole

end Http

end Agent
