import GServer.HttpReceive

/-!
# A request that arrives in several reads

The offsets of the parser are those of the current read, so an element that began in
an earlier one is not found where it was: its callback is given the bytes from the
beginning of the read, or from a wrong offset, or a field name of no bytes.  Where every
element lies in one read the callbacks are given the elements, and the split request is
received as the whole one exactly when the bytes of its body are read back.
-/

namespace Agent

open Pieces

namespace Http

/-- The positions from which the callback of an action takes its bytes. -/
def Element.origins (e : Element) : List Nat :=
  match e.action with
  | .requestMethod | .fragment | .requestPath | .httpVersion => [e.marks.mark]
  | .queryString => [e.marks.queryStart]
  | .writeValue => [e.marks.fieldStart, e.marks.nameStart, e.marks.mark]
  | _ => []

/-- The element lies in the read in which its callback is made. -/
def InOneRead (limit : Nat) (sock : Socket) (e : Element) : Prop :=
  ∀ q ∈ e.origins, startOf limit sock e.pos ≤ q

instance (limit : Nat) (sock : Socket) (e : Element) : Decidable (InOneRead limit sock e) :=
  inferInstanceAs (Decidable (∀ q ∈ e.origins, startOf limit sock e.pos ≤ q))

section Slices

variable {β a p : Nat}

theorem take_drop_drop (xs : Str) (hβ : β ≤ a) :
    ((xs.drop β).take (p - β)).drop (a - β) = (xs.take p).drop a := by
  rw [← List.drop_take, List.drop_drop]
  congr 1
  omega

/-- The bytes between two positions of one read. -/
theorem text_drop (xs : Str) (hβ : β ≤ a) (hp : β ≤ p) :
    text (xs.drop β) (a - β) (p - β) = text xs a p := by
  unfold text
  rw [take_drop_drop xs hβ]
  by_cases hap : a ≤ p
  · rw [if_pos hap, if_pos (by omega)]
  · rw [if_neg hap, if_neg (by omega)]

end Slices

/-- **An element in one read** is seen as it is. -/
theorem seen_of_inOneRead {limit : Nat} (hlimit : 0 < limit) {sock : Socket} {d : Str}
    {e : Element} (hmarks : e.marks.Within e.pos) (h : InOneRead limit sock e) :
    seen (startOf limit sock) d e = seen (fun _ => 0) d e := by
  have hle := startOf_le limit sock e.pos
  have hquery := hmarks.queryStart
  obtain ⟨a, p, m⟩ := e
  dsimp only at hle hquery
  unfold seen
  dsimp only
  rw [List.drop_zero, Nat.sub_zero]
  unfold InOneRead Element.origins at h
  dsimp only at h
  simp only [Marks.registers, Nat.sub_zero]
  have hmethod : p - startOf limit sock p + 1 = p + 1 - startOf limit sock p := by omega
  cases a with
  | requestMethod =>
      have hmark := h m.mark (by simp)
      simp only [Action.callback?, hmethod, take_drop_drop d hmark]
  | fragment | requestPath | httpVersion =>
      have hmark := h m.mark (by simp)
      simp only [Action.callback?, text_drop d hmark hle]
  | queryString =>
      have hstart := h m.queryStart (by simp)
      have hsame : startOf limit sock m.queryStart = startOf limit sock p :=
        startOf_eq hlimit hstart hquery
      simp only [Action.callback?, hsame, text_drop d hstart hle]
  | writeValue =>
      have hfield := h m.fieldStart (by simp)
      have hname := h m.nameStart (by simp)
      have hmark := h m.mark (by simp)
      have hlen : m.nameEnd - startOf limit sock p - (m.nameStart - startOf limit sock p) =
          m.nameEnd - m.nameStart := by omega
      simp only [Action.callback?, hlen, take_drop_drop d hfield, text_drop d hmark hle]
  | mark | startField | writeField | startValue | startQuery | requestUri => rfl

section Recv

variable {σ M : Type} {c : RecvConfig σ} {sock : Socket} {d : Str}

/-- The body is all that `recvBody` changes of a request. -/
theorem recvBody_request {r r' : HttpRequest M} {unresolved : Str} {length : Int}
    (h : (recvBody r unresolved sock length).1.request? = some r') :
    { r' with body := r.body } = r := by
  unfold recvBody at h
  dsimp only at h
  split at h
  · split at h
    · split at h
      · split at h
        · cases h
        · cases h
          rfl
      · cases h
        rfl
    · cases h
      rfl
  · cases h
    rfl

variable [KeyedStore M]

/-- Where every element lies in one read, the callbacks make the same request. -/
theorem inOneRead_made (hB : 0 < c.bufferSize)
    (h : ∀ e ∈ (headScan c d).elements, InOneRead c.bufferSize sock e) :
    made M c (startOf c.bufferSize sock) d = made M c (fun _ => 0) d := by
  rw [made, made]
  congr 1
  refine List.filterMap_congr fun e he => ?_
  exact seen_of_inOneRead hB (headScan_within c d e he).2 (h e he)

/-- The callbacks make no body. -/
theorem made_body {starts : Nat → Nat} {t : Target M} (h : made M c starts d = some t) :
    t.data.body = [] :=
  (runCallbacks_keeps h).2.1

/-- A request that is returned is one that the callbacks have made without error. -/
theorem recvRequest_request (hB : 0 < c.bufferSize) (hpieces : AllNonempty sock)
    (hfin : (headScan c sock.flatten).status = .finished) {r : HttpRequest M}
    (h : (recvRequest c sock).1.request? = some r) :
    ∃ t, made M c (startOf c.bufferSize sock) sock.flatten = some t ∧ t.error = 0 ∧
      { r with body := [] } = t.data := by
  obtain ⟨hmade, hnone⟩ := recvRequest_spec (M := M) hB hpieces hfin
  by_cases hbad : ∀ t, made M c (startOf c.bufferSize sock) sock.flatten = some t → t.error ≠ 0
  · rw [hnone hbad] at h
    cases h
  · obtain ⟨t, ht, herror⟩ := by
      push Not at hbad
      exact hbad
    refine ⟨t, ht, herror, ?_⟩
    rw [hmade t ht herror] at h
    cases hlength : getContentLength c.lexicalCast t.data with
    | none =>
        rw [hlength] at h
        cases h
    | some length =>
        rw [hlength] at h
        have hbody := recvBody_request h
        rwa [made_body ht] at hbody

/-- In one piece the reads of the head begin at its first byte. -/
theorem startOf_whole {r : HttpRequest M} (h : WellFormed c d r) {i : Nat}
    (hi : i < (headScan c d).stop) :
    startOf c.bufferSize [d] i = 0 ∧
      endOf c.bufferSize [d] i = min c.bufferSize d.length := by
  have hle := headScan_le c d
  have hfits := h.fits
  have hfront : (front c.bufferSize [d]).length = min c.bufferSize d.length := by
    rw [front, List.length_take]
  have hlt : i < (front c.bufferSize [d]).length := by omega
  have hbounds := bounds_front hlt
  rwa [hfront] at hbounds

/-- The request is received from these pieces as it is when it arrives in one. -/
def ReceivedAsWhole (M : Type) [KeyedStore M] (c : RecvConfig σ) (d : Str) (sock : Socket) : Prop :=
  ∃ r : HttpRequest M, (recvRequest c [d]).1.request? = some r ∧
    (recvRequest c sock).1.request? = some r

/-- For the bytes of the body that do not come with the head, in pieces and in one,
`readFixSize` reports success. -/
def BodyReadsBack (c : RecvConfig σ) (d : Str) (sock : Socket) : Prop :=
  ReadsBack (d.length - endOf c.bufferSize sock ((headScan c d).stop - 1)) ∧
  ReadsBack (d.length - min c.bufferSize d.length)

/-- No element of the head is cut by the end of a read, and the body is read back. -/
structure SplitHarmless (c : RecvConfig σ) (d : Str) (sock : Socket) : Prop where
  inOneRead : ∀ e ∈ (headScan c d).elements, InOneRead c.bufferSize sock e
  body : BodyReadsBack c d sock

/-- What one piece gives. -/
theorem recvRequest_whole {r : HttpRequest M} (h : WellFormed c d r) :
    (ReadsBack (d.length - min c.bufferSize d.length) →
      (recvRequest c [d]).1.request? = some r) ∧
    (¬ ReadsBack (d.length - min c.bufferSize d.length) →
      (recvRequest c [d] : Received M × Socket).1.request? = none) := by
  have hne : d ≠ [] := by
    rintro rfl
    have := h.head_pos
    have := headScan_le c ([] : Str)
    simp at this
    omega
  have hpieces : AllNonempty [d] := by
    intro p hp
    rwa [List.mem_singleton.mp hp]
  have hflat : ([d] : Socket).flatten = d ++ [] := by simp
  have hpos := h.head_pos
  have hend := (startOf_whole h (i := (headScan c d).stop - 1) (by omega)).2
  have hmade := made_eq (M := M) [] h.finished fun i hi => (startOf_whole h hi).1
  obtain ⟨hgood, hbad, -⟩ := recvRequest_of_wellFormed hpieces hflat h hmade
  rw [hend] at hgood hbad
  have hle : min c.bufferSize d.length ≤ d.length := Nat.min_le_right _ _
  exact ⟨fun hback => by rw [hgood hle hback]; rfl, fun hno => by rw [hbad hle hno]; rfl⟩

/-- A request that is received from its pieces as in one has been made by callbacks that
say the same, and its body was read back both times. -/
theorem made_of_receivedAsWhole {r : HttpRequest M} (h : WellFormed c d r)
    (hpieces : AllNonempty sock) (hflat : sock.flatten = d) (hwhole : ReceivedAsWhole M c d sock) :
    made M c (startOf c.bufferSize sock) d = made M c (fun _ => 0) d ∧
      ReadsBack (d.length - min c.bufferSize d.length) := by
  obtain ⟨hone, hnone⟩ := recvRequest_whole h
  obtain ⟨r', hr', hpiecewise⟩ := hwhole
  have hback : ReadsBack (d.length - min c.bufferSize d.length) := by
    by_contra hno
    rw [hnone hno] at hr'
    cases hr'
  obtain rfl : r = r' := Option.some.inj ((hone hback).symm.trans hr')
  obtain ⟨t, ht, herror, hdata⟩ := recvRequest_request h.buffer_pos hpieces
    (by rw [hflat]; exact h.finished) hpiecewise
  rw [hflat] at ht
  obtain ⟨t₀, length, ht₀, herror₀, -, -, hr⟩ := h.content
  have hdata₀ : { r with body := [] } = t₀.data := by
    rw [hr, ← made_body ht₀]
    exact withBody_body _ _ _
  obtain ⟨data, error⟩ := t
  obtain ⟨data₀, error₀⟩ := t₀
  dsimp only at herror herror₀ hdata hdata₀
  exact ⟨by rw [ht, ht₀, herror, herror₀, ← hdata, ← hdata₀], hback⟩

/-- **Segmentation.**  A well-formed request that arrives in pieces, none of whose elements
is cut by the end of a read, is received as the whole one if its body is read back; and a
body that is not read back is never received as the whole one. -/
theorem receivedAsWhole_of_harmless {r : HttpRequest M} (h : WellFormed c d r)
    (hpieces : AllNonempty sock) (hflat : sock.flatten = d) :
    (SplitHarmless c d sock → ReceivedAsWhole M c d sock) ∧
    (ReceivedAsWhole M c d sock → BodyReadsBack c d sock) := by
  have hB := h.buffer_pos
  have hpos := h.head_pos
  have hlast : (headScan c d).stop - 1 < sock.flatten.length := by
    have := headScan_le c d
    rw [hflat]
    omega
  have hend := (endOf_bounds hB hlast).2
  rw [hflat] at hend
  have hflat' : sock.flatten = d ++ [] := by rw [hflat, List.append_nil]
  have hsplit := fun hmade => recvRequest_of_wellFormed hpieces hflat' h
    (by rwa [List.append_nil])
  refine ⟨fun hharmless => ?_, fun hwhole => ?_⟩
  · have hmade := inOneRead_made (M := M) hB hharmless.inOneRead
    obtain ⟨hback, hback₀⟩ := hharmless.body
    refine ⟨r, (recvRequest_whole h).1 hback₀, ?_⟩
    rw [(hsplit hmade).1 hend hback]
    rfl
  · obtain ⟨hmade, hback₀⟩ := made_of_receivedAsWhole h hpieces hflat hwhole
    obtain ⟨r', -, hpiecewise⟩ := hwhole
    refine ⟨?_, hback₀⟩
    by_contra hno
    rw [(hsplit hmade).2.1 hend hno] at hpiecewise
    cases hpiecewise

end Recv

/-! ## Two connections -/

/-- A request with a header and a body. -/
def postRequest : Str :=
  ascii "POST / HTTP/1.1\r\ncontent-length: 2\r\n\r\nhi"

/-- What it says. -/
def posted : HttpRequest MapType where
  method := .POST
  version := 0x11
  close := true
  path := ascii "/"
  query := []
  fragment := []
  body := ascii "hi"
  headers := ⟨[(ascii "content-length", ascii "2")]⟩
  params := ⟨[]⟩
  cookies := ⟨[]⟩

/-- The request is well-formed. -/
theorem wellFormed_post : WellFormed rootConfig postRequest posted where
  finished := by decide
  fits := by decide
  content := ⟨⟨{ posted with body := [] }, 0⟩, 2, by decide, rfl, by decide,
    by decide, by decide⟩

/-- The request split between its elements. -/
def postPieces : Socket :=
  [ascii "POST ", ascii "/ HTTP/1.1\r", ascii "\ncontent-length: 2\r", ascii "\n\r\nh", ascii "i"]

/-- So split it is received as the whole one. -/
theorem post_received_as_whole : ReceivedAsWhole MapType rootConfig postRequest postPieces := by
  have hpieces : AllNonempty postPieces := by
    unfold AllNonempty
    decide
  have hflat : postPieces.flatten = postRequest := by decide
  have hharmless : SplitHarmless rootConfig postRequest postPieces :=
    ⟨by decide, by decide +kernel, by decide +kernel⟩
  exact (receivedAsWhole_of_harmless wellFormed_post hpieces hflat).1 hharmless

/-- The version `HTTP/1.1` may be cut at its end: the callback takes no bytes for it. -/
example : (recvRequest rootConfig [ascii "GET / HTTP/1.1", ascii "\r\n\r\n"] :
    Received MapType × Socket) = (.request (HttpRequest.new 0x11 true) [], []) := by
  decide

/-- `GET / HTTP/1.1` is received in one piece; split after `GE` its method callback is
given `T` and a space, and the connection is closed. -/
theorem split_method_refused :
    (recvRequest rootConfig [ascii "GET / HTTP/1.1\r\n\r\n"] : Received MapType × Socket) =
      (.request (HttpRequest.new 0x11 true) [], []) ∧
    (recvRequest rootConfig [ascii "GE", ascii "T / HTTP/1.1\r\n\r\n"] :
      Received MapType × Socket) = (.null, []) := by
  decide

end Http

end Agent
