import GServer.HttpReceive

/-!
# Several requests on one connection

Each call of `recvRequest` has a buffer of its own.  Bytes of a following request that
come with the end of a head are in that buffer and are dropped when the call returns,
so a sequence of requests is received in order, and every byte used, exactly when no
read that ends a head goes beyond its request.
-/

namespace Agent

open Pieces

namespace Http

section Session

variable {σ M : Type} {c : RecvConfig σ}

/-- Every head of these requests comes whole in one read. -/
def HeadsWhole (c : RecvConfig σ) : List Str → Socket → Prop
  | [], _ => True
  | d :: ds, sock =>
      (headScan c d).stop ≤ (front c.bufferSize sock).length ∧
        HeadsWhole c ds (dropFront d.length sock)

/-- No read that brings a head brings more than its request, and for the bytes of a body
that do not come with the head `readFixSize` reports success. -/
def NoSurplus (c : RecvConfig σ) : List Str → Socket → Prop
  | [], _ => True
  | d :: ds, sock =>
      (front c.bufferSize sock).length ≤ d.length ∧
        ReadsBack (d.length - (front c.bufferSize sock).length) ∧
        NoSurplus c ds (dropFront d.length sock)

variable [KeyedStore M]

/-- Successive calls of `recvRequest` return these requests, leave no byte unused in the
buffer and none on the connection. -/
def Receives (c : RecvConfig σ) : List (HttpRequest M) → Socket → Prop
  | [], sock => sock = []
  | r :: rs, sock => ∃ sock', recvRequest c sock = (.request r [], sock') ∧ Receives c rs sock'

/-- **Keep-alive.**  Well-formed requests whose heads come whole in one read each are received
in order, every byte used, exactly when no read brings a surplus. -/
theorem receives_iff_noSurplus (requests : List (Str × HttpRequest M))
    (h : ∀ q ∈ requests, WellFormed c q.1 q.2) {sock : Socket} (hpieces : AllNonempty sock)
    (hflat : sock.flatten = (requests.map Prod.fst).flatten)
    (hwhole : HeadsWhole c (requests.map Prod.fst) sock) :
    Receives c (requests.map Prod.snd) sock ↔ NoSurplus c (requests.map Prod.fst) sock := by
  induction requests generalizing sock with
  | nil =>
      refine iff_of_true ?_ trivial
      cases sock with
      | nil => rfl
      | cons piece rest =>
          rw [List.map_nil, List.flatten_nil, List.flatten_cons] at hflat
          exact absurd (List.append_eq_nil_iff.mp hflat).1 (hpieces piece List.mem_cons_self)
  | cons q requests ih =>
      obtain ⟨d, r⟩ := q
      have hd : WellFormed c d r := h (d, r) List.mem_cons_self
      have hpos := hd.head_pos
      have hhead : (headScan c d).stop ≤ (front c.bufferSize sock).length := hwhole.1
      have hheads : HeadsWhole c (requests.map Prod.fst) (dropFront d.length sock) := hwhole.2
      rw [List.map_cons, List.flatten_cons] at hflat
      have hbegin : ∀ i, i < (headScan c d).stop → startOf c.bufferSize sock i = 0 :=
        fun i hi => (bounds_front (Nat.lt_of_lt_of_le hi hhead)).1
      have hend : endOf c.bufferSize sock ((headScan c d).stop - 1) =
          (front c.bufferSize sock).length := (bounds_front (by omega)).2
      have hcall := recvRequest_of_wellFormed hpieces hflat hd (made_eq _ hd.finished hbegin)
      rw [hend] at hcall
      obtain ⟨hgood, hnull, hsurplus⟩ := hcall
      have hrest : (dropFront d.length sock).flatten = (requests.map Prod.fst).flatten := by
        rw [flatten_dropFront, hflat, List.drop_left]
      have ih := ih (fun q hq => h q (List.mem_cons_of_mem _ hq))
        (hpieces.dropFront d.length) hrest hheads
      simp only [List.map_cons, Receives, NoSurplus]
      by_cases hfit : (front c.bufferSize sock).length ≤ d.length
      · by_cases hback : ReadsBack (d.length - (front c.bufferSize sock).length)
        · rw [hgood hfit hback, ← ih]
          refine ⟨?_, fun ⟨_, _, hlater⟩ => ⟨_, rfl, hlater⟩⟩
          rintro ⟨sock', heq, hlater⟩
          cases heq
          exact ⟨hfit, hback, hlater⟩
        · rw [hnull hfit hback]
          exact iff_of_false nofun fun hno => hback hno.2.1
      · obtain ⟨unused, hne, hrun⟩ := hsurplus (Nat.lt_of_not_le hfit)
        rw [hrun]
        refine iff_of_false ?_ fun hno => hfit hno.1
        rintro ⟨sock', heq, -⟩
        cases heq
        exact hne rfl

end Session

/-! ## Two connections -/

/-- A request without a body. -/
def getRequest : Str :=
  ascii "GET / HTTP/1.1\r\n\r\n"

/-- What it says. -/
def got : HttpRequest MapType :=
  HttpRequest.new 0x11 true

/-- The request is well-formed. -/
theorem wellFormed_get : WellFormed rootConfig getRequest got where
  finished := by decide
  fits := by decide
  content := ⟨⟨got, 0⟩, 0, by decide, rfl, by decide, by decide,
    by decide⟩

/-- A client that sends the second request after the answer to the first. -/
theorem two_requests_in_turn :
    Receives rootConfig [got, got] [getRequest, getRequest] := by
  have hpieces : AllNonempty [getRequest, getRequest] := by
    unfold AllNonempty
    decide
  have hwell : ∀ q ∈ [(getRequest, got), (getRequest, got)], WellFormed rootConfig q.1 q.2 := by
    intro q hq
    simp only [List.mem_cons, List.not_mem_nil, or_false, or_self] at hq
    rw [hq]
    exact wellFormed_get
  have hwhole : HeadsWhole rootConfig [getRequest, getRequest] [getRequest, getRequest] := by
    refine ⟨by decide, by decide, trivial⟩
  have hflat : ([getRequest, getRequest] : Socket).flatten =
      ([(getRequest, got), (getRequest, got)].map Prod.fst).flatten := rfl
  refine (receives_iff_noSurplus [(getRequest, got), (getRequest, got)] hwell hpieces hflat
    hwhole).mpr ?_
  exact ⟨by decide, by decide, by decide, by decide, trivial⟩

/-- Both requests in one read: the first call returns the first request with the second
unused, and the second call finds nothing. -/
theorem pipelined_request_lost :
    (recvRequest rootConfig [getRequest ++ getRequest] : Received MapType × Socket) =
      (.request got getRequest, []) ∧
    (recvRequest rootConfig [] : Received MapType × Socket) = (.null, []) ∧
    ¬ Receives rootConfig [got, got] [getRequest ++ getRequest] := by
  have hfirst : (recvRequest rootConfig [getRequest ++ getRequest] : Received MapType × Socket) =
      (.request got getRequest, []) := by decide
  refine ⟨hfirst, by decide, ?_⟩
  rintro ⟨sock', hrun, -⟩
  rw [hfirst] at hrun
  cases hrun

end Http

end Agent
