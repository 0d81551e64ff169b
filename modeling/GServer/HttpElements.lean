import GServer.HttpSession
import GServer.Library.Pieces

/-!
# The elements of a request

`scan` runs the machine over a whole byte string and notes at which positions of
the string each callback finds its offsets set: these are the elements of the
request, whatever way it arrives.  In a read that begins at `β` an offset set at `q`
reads `q - β`, and zero if `q` lies in an earlier read; only `query_start` keeps the
offset it had in the read in which it was set.  `seen` is what a callback is given
then, and `execLoop_eq` says that this is what the parser does.
-/

namespace Agent

namespace Http

/-- The positions at which the offsets were set; `nameStart` and `nameEnd` are those that
`field_len` was computed from. -/
structure Marks where
  mark : Nat
  fieldStart : Nat
  nameStart : Nat
  nameEnd : Nat
  queryStart : Nat
deriving DecidableEq

/-- Nothing is set. -/
def Marks.zero : Marks := ⟨0, 0, 0, 0, 0⟩

/-- What an action at position `q` sets. -/
def Marks.set (q : Nat) (m : Marks) : Action → Marks
  | .mark | .startValue => { m with mark := q }
  | .startField => { m with fieldStart := q }
  | .writeField => { m with nameStart := m.fieldStart, nameEnd := q }
  | .startQuery => { m with queryStart := q }
  | _ => m

/-- The offsets in a read that begins at `β`; the read of a position begins at `starts`
of it. -/
def Marks.registers (starts : Nat → Nat) (β : Nat) (m : Marks) : Registers where
  mark := m.mark - β
  fieldStart := m.fieldStart - β
  fieldLen := (m.nameEnd - β) - (m.nameStart - β)
  queryStart := m.queryStart - starts m.queryStart

/-- An action of the machine, the position at which it is performed and what is set
there. -/
structure Element where
  action : Action
  pos : Nat
  marks : Marks
deriving DecidableEq

/-- The actions of one transition at position `q`. -/
def scanActions (q : Nat) : List Action → Marks → Marks × List Element
  | [], m => (m, [])
  | a :: as, m =>
      let rest := scanActions q as (m.set q a)
      (rest.1, ⟨a, q, m⟩ :: rest.2)

/-- The result of a scan: `stop` is the position after the last byte taken. -/
structure Scan (σ : Type) where
  status : Status σ
  marks : Marks
  elements : List Element
  stop : Nat

/-- The scan with earlier elements put before its own. -/
def Scan.prepend {σ : Type} (es : List Element) (sc : Scan σ) : Scan σ :=
  { sc with elements := es ++ sc.elements }

/-- Run the machine over bytes that begin at position `q`. -/
def scan {σ : Type} (tok : Tokenizer σ) : Str → Nat → σ → Marks → Scan σ
  | [], q, s, m => ⟨.running s, m, [], q⟩
  | b :: rest, q, s, m =>
      match tok.move s b with
      | .error => ⟨.error, m, [], q⟩
      | .done actions =>
          let here := scanActions q actions m
          ⟨.finished, here.1, here.2, q + 1⟩
      | .goto actions s' =>
          let here := scanActions q actions m
          (scan tok rest (q + 1) s' here.1).prepend here.2

/-- The callback of an element, given what it is given when the read of a position begins
at `starts` of it. -/
def seen (starts : Nat → Nat) (data : Str) (e : Element) : Option Callback :=
  e.action.callback? (data.drop (starts e.pos)) (e.pos - starts e.pos)
    (e.marks.registers starts (starts e.pos))

/-! ## Scans -/

section Scans

variable {σ : Type} {tok : Tokenizer σ}

@[simp] theorem Scan.prepend_status (es : List Element) (sc : Scan σ) :
    (sc.prepend es).status = sc.status := rfl

@[simp] theorem Scan.prepend_marks (es : List Element) (sc : Scan σ) :
    (sc.prepend es).marks = sc.marks := rfl

@[simp] theorem Scan.prepend_stop (es : List Element) (sc : Scan σ) :
    (sc.prepend es).stop = sc.stop := rfl

@[simp] theorem Scan.prepend_elements (es : List Element) (sc : Scan σ) :
    (sc.prepend es).elements = es ++ sc.elements := rfl

/-- Elements are put in front twice. -/
theorem Scan.prepend_prepend (es es' : List Element) (sc : Scan σ) :
    (sc.prepend es').prepend es = sc.prepend (es ++ es') := by
  simp only [Scan.prepend, List.append_assoc]

section Step

variable {b : UInt8} {rest : Str} {q : Nat} {s : σ} {m : Marks}

/-- The scan stops at an error, in front of the byte. -/
theorem scan_error (h : tok.move s b = .error) :
    scan tok (b :: rest) q s m = ⟨.error, m, [], q⟩ := by
  rw [scan, h]

/-- The scan stops behind the last byte. -/
theorem scan_done {actions : List Action} (h : tok.move s b = .done actions) :
    scan tok (b :: rest) q s m =
      ⟨.finished, (scanActions q actions m).1, (scanActions q actions m).2, q + 1⟩ := by
  rw [scan, h]

/-- The scan goes on behind the byte, with its elements in front. -/
theorem scan_goto {actions : List Action} {s' : σ} (h : tok.move s b = .goto actions s') :
    scan tok (b :: rest) q s m =
      (scan tok rest (q + 1) s' (scanActions q actions m).1).prepend
        (scanActions q actions m).2 := by
  rw [scan, h]

end Step

/-- A scan stops within its bytes; one that is not over has taken them all, and a finished
one has taken at least one. -/
theorem scan_stop (tok : Tokenizer σ) (xs : Str) (q : Nat) (s : σ) (m : Marks) :
    q ≤ (scan tok xs q s m).stop ∧ (scan tok xs q s m).stop ≤ q + xs.length ∧
      (∀ s', (scan tok xs q s m).status = .running s' →
        (scan tok xs q s m).stop = q + xs.length) ∧
      ((scan tok xs q s m).status = .finished → q < (scan tok xs q s m).stop) := by
  induction xs generalizing q s m with
  | nil => exact ⟨Nat.le_refl _, Nat.le_refl _, fun _ _ => rfl, nofun⟩
  | cons b rest ih =>
      rw [List.length_cons]
      cases hmove : tok.move s b with
      | error =>
          rw [scan_error hmove]
          exact ⟨Nat.le_refl q, Nat.le_add_right q _, nofun, nofun⟩
      | done actions =>
          rw [scan_done hmove]
          refine ⟨Nat.le_succ q, ?_, nofun, fun _ => Nat.lt_succ_self q⟩
          dsimp only
          omega
      | goto actions s' =>
          rw [scan_goto hmove]
          obtain ⟨hge, hle, hrun, hfin⟩ := ih (q + 1) s' (scanActions q actions m).1
          simp only [Scan.prepend_stop, Scan.prepend_status]
          refine ⟨by omega, by omega, fun t ht => ?_, fun _ => by omega⟩
          have := hrun t ht
          omega

/-- A scan that is over does not look further. -/
theorem scan_append_of_over {xs : Str} {q : Nat} {s : σ} {m : Marks}
    (h : ∀ s', (scan tok xs q s m).status ≠ .running s') (ys : Str) :
    scan tok (xs ++ ys) q s m = scan tok xs q s m := by
  induction xs generalizing q s m with
  | nil => exact absurd rfl (h s)
  | cons b rest ih =>
      rw [List.cons_append]
      cases hmove : tok.move s b with
      | error => rw [scan_error hmove, scan_error hmove]
      | done actions => rw [scan_done hmove, scan_done hmove]
      | goto actions s' =>
          rw [scan_goto hmove] at h
          rw [scan_goto hmove, scan_goto hmove, ih h]

/-- A scan that is not over goes on where it is. -/
theorem scan_append_of_running {xs : Str} {q : Nat} {s s' : σ} {m : Marks}
    (h : (scan tok xs q s m).status = .running s') (ys : Str) :
    scan tok (xs ++ ys) q s m =
      (scan tok ys (q + xs.length) s' (scan tok xs q s m).marks).prepend
        (scan tok xs q s m).elements := by
  induction xs generalizing q s m with
  | nil =>
      cases h
      rfl
  | cons b rest ih =>
      have hlen : q + (b :: rest).length = q + 1 + rest.length := by
        rw [List.length_cons]
        omega
      rw [List.cons_append, hlen]
      cases hmove : tok.move s b with
      | error =>
          rw [scan_error hmove] at h
          cases h
      | done actions =>
          rw [scan_done hmove] at h
          cases h
      | goto actions t =>
          rw [scan_goto hmove] at h
          rw [scan_goto hmove, scan_goto hmove, ih h]
          exact Scan.prepend_prepend _ _ _

/-- The positions are at most `q`. -/
structure Marks.Within (m : Marks) (q : Nat) : Prop where
  mark : m.mark ≤ q
  fieldStart : m.fieldStart ≤ q
  nameStart : m.nameStart ≤ q
  nameEnd : m.nameEnd ≤ q
  queryStart : m.queryStart ≤ q

/-- The marks of a new scan are in front of everything. -/
theorem Marks.zero_within (q : Nat) : Marks.zero.Within q :=
  ⟨Nat.zero_le q, Nat.zero_le q, Nat.zero_le q, Nat.zero_le q, Nat.zero_le q⟩

/-- Marks that lie before a place lie before any later one. -/
theorem Marks.Within.mono {m : Marks} {q q' : Nat} (h : m.Within q) (hq : q ≤ q') :
    m.Within q' :=
  ⟨Nat.le_trans h.mark hq, Nat.le_trans h.fieldStart hq, Nat.le_trans h.nameStart hq,
    Nat.le_trans h.nameEnd hq, Nat.le_trans h.queryStart hq⟩

/-- A mark that is set here lies here. -/
theorem Marks.Within.set {m : Marks} {q : Nat} (h : m.Within q) (a : Action) :
    (m.set q a).Within q := by
  obtain ⟨h1, h2, h3, h4, h5⟩ := h
  cases a <;> constructor <;> first | assumption | exact Nat.le_refl q

/-- The actions at a place set marks up to it, and their elements end at it. -/
theorem scanActions_within {q : Nat} (actions : List Action) {m : Marks} (h : m.Within q) :
    (scanActions q actions m).1.Within q ∧
      ∀ e ∈ (scanActions q actions m).2, e.pos = q ∧ e.marks.Within q := by
  induction actions generalizing m with
  | nil => exact ⟨h, nofun⟩
  | cons a as ih =>
      obtain ⟨hm, hes⟩ := ih (h.set a)
      refine ⟨hm, fun e he => ?_⟩
      rcases List.mem_cons.mp he with rfl | he
      · exact ⟨rfl, h⟩
      · exact hes e he

/-- Elements lie in the scanned bytes and find set what lies before them. -/
theorem scan_within (tok : Tokenizer σ) (xs : Str) (q : Nat) (s : σ) {m : Marks} (h : m.Within q) :
    (scan tok xs q s m).marks.Within (q + xs.length) ∧
      ∀ e ∈ (scan tok xs q s m).elements,
        q ≤ e.pos ∧ e.pos < (scan tok xs q s m).stop ∧ e.marks.Within e.pos := by
  induction xs generalizing q s m with
  | nil => exact ⟨h, nofun⟩
  | cons b rest ih =>
      rw [List.length_cons]
      cases hmove : tok.move s b with
      | error =>
          rw [scan_error hmove]
          exact ⟨h.mono (Nat.le_add_right _ _), nofun⟩
      | done actions =>
          rw [scan_done hmove]
          obtain ⟨hm, hes⟩ := scanActions_within actions h
          refine ⟨hm.mono (Nat.le_add_right _ _), fun e he => ?_⟩
          obtain ⟨rfl, hwithin⟩ := hes e he
          exact ⟨Nat.le_refl _, Nat.lt_succ_self _, hwithin⟩
      | goto actions s' =>
          rw [scan_goto hmove]
          obtain ⟨hm, hes⟩ := scanActions_within actions h
          obtain ⟨hm', hes'⟩ := ih (q + 1) s' (hm.mono (Nat.le_succ q))
          refine ⟨hm'.mono (by omega), fun e he => ?_⟩
          rcases List.mem_append.mp he with he | he
          · obtain ⟨rfl, hwithin⟩ := hes e he
            have hstop := (scan_stop tok rest (e.pos + 1) s' (scanActions e.pos actions m).1).1
            exact ⟨Nat.le_refl _, hstop, hwithin⟩
          · obtain ⟨hle, hlt, hwithin⟩ := hes' e he
            exact ⟨by omega, hlt, hwithin⟩

end Scans

/-! ## One read -/

section OneRead

variable {σ : Type} {starts : Nat → Nat} {data buffer : Str} {β : Nat}

/-- The callbacks only look at the bytes up to their position. -/
theorem callback?_congr {buffer buffer' : Str} {p : Nat} (r : Registers) (a : Action)
    (h : buffer.take (p + 1) = buffer'.take (p + 1)) :
    a.callback? buffer p r = a.callback? buffer' p r := by
  have hp : buffer.take p = buffer'.take p := by
    have htake := congrArg (List.take p) h
    rwa [List.take_take, List.take_take, Nat.min_eq_left (Nat.le_succ p)] at htake
  cases a <;> simp only [Action.callback?, text, h, hp]

/-- The offsets follow the positions. -/
theorem setRegisters_eq (a : Action) (m : Marks) {p : Nat} (hstart : starts (β + p) = β) :
    a.setRegisters p (m.registers starts β) = (m.set (β + p) a).registers starts β := by
  have hoffset : β + p - β = p := Nat.add_sub_cancel_left β p
  cases a with
  | mark | startValue | startField | writeField =>
      simp only [Action.setRegisters, Marks.set, Marks.registers, hoffset]
  | startQuery => simp only [Action.setRegisters, Marks.set, Marks.registers, hoffset, hstart]
  | _ => rfl

variable (hbuffer : buffer = (data.drop β).take buffer.length)
include hbuffer

/-- What the machine does at a byte of a read, in the terms of the scan of the whole. -/
theorem perform_eq {p : Nat} (hp : p < buffer.length) (hstart : starts (β + p) = β)
    (actions : List Action) (m : Marks) :
    perform buffer p actions (m.registers starts β) =
      ((scanActions (β + p) actions m).1.registers starts β,
        (scanActions (β + p) actions m).2.filterMap (seen starts data)) := by
  induction actions generalizing m with
  | nil => rfl
  | cons a as ih =>
      have hseen : seen starts data ⟨a, β + p, m⟩ =
          a.callback? buffer p (m.registers starts β) := by
        rw [seen, hstart, Nat.add_sub_cancel_left]
        refine callback?_congr _ _ ?_
        rw [hbuffer, List.take_take, Nat.min_eq_left (by omega)]
      rw [perform, setRegisters_eq a m hstart, ih]
      simp only [scanActions, List.filterMap_cons, hseen]
      cases a.callback? buffer p (m.registers starts β) <;> rfl

/-- **One read.**  Running over the rest of a buffer that begins at `β` makes the callbacks
of the elements found there, as they are seen from that read. -/
theorem execLoop_eq (tok : Tokenizer σ) (rest : Str) (p : Nat) (s : σ) (m : Marks) (hrest : rest = buffer.drop p)
    (hp : p ≤ buffer.length) (hstarts : ∀ i, i < buffer.length → starts (β + i) = β) :
    execLoop tok buffer rest p s (m.registers starts β) =
      ⟨(scan tok rest (β + p) s m).status,
        (scan tok rest (β + p) s m).marks.registers starts β,
        (scan tok rest (β + p) s m).elements.filterMap (seen starts data),
        (scan tok rest (β + p) s m).stop - β⟩ := by
  induction rest generalizing p s m with
  | nil =>
      simp only [execLoop, scan, List.filterMap_nil, Nat.add_sub_cancel_left]
  | cons b rest ih =>
      have hlt : p < buffer.length := by
        have := congrArg List.length hrest
        rw [List.length_cons, List.length_drop] at this
        omega
      have htail : rest = buffer.drop (p + 1) := by
        rw [← List.tail_drop, ← hrest, List.tail_cons]
      have hperform := fun actions => perform_eq hbuffer hlt (hstarts p hlt) actions m
      unfold execLoop
      cases hmove : tok.move s b with
      | error =>
          rw [scan_error hmove]
          simp only [List.filterMap_nil, Nat.add_sub_cancel_left]
      | done actions =>
          rw [scan_done hmove]
          simp only [hperform, Nat.add_assoc, Nat.add_sub_cancel_left]
      | goto actions s' =>
          rw [scan_goto hmove]
          simp only [hperform, ih (p + 1) s' _ htail hlt, Scan.prepend_status,
            Scan.prepend_marks, Scan.prepend_elements, Scan.prepend_stop, List.filterMap_append,
            Nat.add_assoc]

end OneRead

end Http

end Agent
