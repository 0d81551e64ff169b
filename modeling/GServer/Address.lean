import GServer.Http
import GServer.Library.ByteSwap
import GServer.Library.Folds
import GServer.Library.GroupText
import GServer.Library.TextLines

/-!
# Addresses

IPv4 and IPv6 addresses as `sockaddr_in` and `sockaddr_in6` hold them on a little-endian
host: ports and IPv4 addresses are words in network order, the 16 bytes of an IPv6
address are also read as eight words.

`IPv6Address.insert_denotes` says that what `insert` writes between the brackets stands
for the 16 bytes of the address.
-/

namespace Agent

open ByteSwap Folds GroupText

namespace Net

/-! ## The stream -/

def dot : Http.Str := [46]

def colon : Http.Str := [58]

def openBracket : Http.Str := [91]

def closeBracket : Http.Str := [93]

/-- What `<<` reads and writes of an `std::ostream` whose other flags have their
defaults: the text and whether `std::hex` was the last base set. -/
structure OStream where
  text : Http.Str
  hex : Bool

namespace OStream

/-- A fresh `std::stringstream`. -/
def new : OStream :=
  { text := [], hex := false }

/-- `os << text`. -/
def put (os : OStream) (text : Http.Str) : OStream :=
  { os with text := os.text ++ text }

/-- `os << std::hex`; the base stays until another one is set. -/
def setHex (os : OStream) : OStream :=
  { os with hex := true }

/-- `os << n`. -/
def putNumber (os : OStream) (n : Nat) : OStream :=
  os.put (if os.hex then hexNumeral n else TextLines.numeral n)

@[simp] theorem put_text (os : OStream) (text : Http.Str) :
    (os.put text).text = os.text ++ text := rfl

end OStream

/-- `byteswapOnLittleEndian` where the host is little-endian. -/
def byteswapOnLittleEndian {n : Nat} (t : BitVec n) : BitVec n :=
  byteswap t

/-! ## The two families -/

/-- `sa_family_t`. -/
abbrev Family : Type := UInt16

def AF_INET : Family := 2

def AF_INET6 : Family := 10

/-- `sockaddr_in`, without its padding. -/
structure SockaddrIn where
  sin_family : Family
  sin_port : BitVec 16
  s_addr : BitVec 32
deriving DecidableEq

/-- `sockaddr_in6`; the address is the union `__in6_u` as its bytes. -/
structure SockaddrIn6 where
  sin6_family : Family
  sin6_port : BitVec 16
  sin6_flowinfo : BitVec 32
  u6_addr8 : Vector (BitVec 8) 16
  sin6_scope_id : BitVec 32
deriving DecidableEq

/-- `u6_addr16[i]`: the byte at the lower address is the low one. -/
def SockaddrIn6.u6_addr16 (m_addr : SockaddrIn6) (i : Fin 8) : BitVec 16 :=
  m_addr.u6_addr8[2 * i.val + 1] ++ m_addr.u6_addr8[2 * i.val]

structure IPv4Address where
  m_addr : SockaddrIn
deriving DecidableEq

structure IPv6Address where
  m_addr : SockaddrIn6
deriving DecidableEq

/-! ## Printing -/

/-- `IPv4Address::insert`. -/
def IPv4Address.insert (a : IPv4Address) (os : OStream) : OStream :=
  let addr := byteswapOnLittleEndian a.m_addr.s_addr
  let os := (os.putNumber ((addr >>> 24) &&& 0xff).toNat).put dot
  let os := (os.putNumber ((addr >>> 16) &&& 0xff).toNat).put dot
  let os := (os.putNumber ((addr >>> 8) &&& 0xff).toNat).put dot
  let os := os.putNumber (addr &&& 0xff).toNat
  (os.put colon).putNumber (byteswapOnLittleEndian a.m_addr.sin_port).toNat

/-- One turn of the loop of `IPv6Address::insert`, with the stream and `use_zero`. -/
def insertGroup (addr : Fin 8 → BitVec 16) (r : OStream × Bool) (i : Fin 8) :
    OStream × Bool :=
  let (os, use_zero) := r
  if addr i = 0 ∧ use_zero = false then (os, use_zero)
  else
    let (os, use_zero) :=
      if i ≠ 0 ∧ addr (i - 1) = 0 ∧ use_zero = false then (os.put colon, true)
      else (os, use_zero)
    let os := if i ≠ 0 then os.put colon else os
    (os.setHex.putNumber (byteswapOnLittleEndian (addr i)).toNat, use_zero)

/-- `IPv6Address::insert`. -/
def IPv6Address.insert (a : IPv6Address) (os : OStream) : OStream :=
  let addr := a.m_addr.u6_addr16
  let (os, use_zero) := (List.finRange 8).foldl (insertGroup addr) (os.put openBracket, false)
  let os := if use_zero = false ∧ addr 7 = 0 then os.put ((colon ++ colon)) else os
  (os.put closeBracket).putNumber (byteswapOnLittleEndian a.m_addr.sin6_port).toNat

/-- `Address::toString`. -/
def IPv4Address.toString (a : IPv4Address) : Http.Str :=
  (a.insert .new).text

def IPv6Address.toString (a : IPv6Address) : Http.Str :=
  (a.insert .new).text

/-! ## What the text stands for -/

/-- The two bytes of a group, in network order. -/
def groupBytes (g : Nat) : List (BitVec 8) :=
  [BitVec.ofNat 8 (g / 256), BitVec.ofNat 8 g]

/-- The bytes that a text of the RFC 4291 grammar denotes. -/
def denotes (text : Http.Str) : Option (List (BitVec 8)) :=
  (readGroups 8 text).map fun gs => gs.flatMap groupBytes

/-- The group that a word of the address holds. -/
def group (addr : Fin 8 → BitVec 16) (i : Fin 8) : Nat :=
  (byteswapOnLittleEndian (addr i)).toNat

def groups (addr : Fin 8 → BitVec 16) : List Nat :=
  List.ofFn (group addr)

/-- A group is a 16-bit number. -/
theorem group_lt (addr : Fin 8 → BitVec 16) (i : Fin 8) : group addr i < 65536 :=
  (byteswapOnLittleEndian (addr i)).isLt

theorem group_eq_zero (addr : Fin 8 → BitVec 16) (i : Fin 8) : group addr i = 0 ↔ addr i = 0 := by
  have hzero : byteswap (0 : BitVec 16) = 0 := by decide
  constructor
  · intro h
    have hswapped : byteswap (addr i) = byteswap 0 := by
      rw [hzero]
      exact BitVec.eq_of_toNat_eq h
    exact byteswap_injective (by decide) hswapped
  · intro h
    rw [group, h, byteswapOnLittleEndian, hzero]
    rfl

/-- There are eight groups. -/
theorem length_groups (addr : Fin 8 → BitVec 16) : (groups addr).length = 8 :=
  List.length_ofFn

theorem groups_lt (addr : Fin 8 → BitVec 16) : ∀ g ∈ groups addr, g < 65536 := by
  intro g hg
  obtain ⟨i, rfl⟩ := List.mem_ofFn.mp hg
  exact group_lt addr i

/-- The groups up to the next one. -/
theorem take_succ_groups (addr : Fin 8 → BitVec 16) (i : Fin 8) :
    (groups addr).take (i.val + 1) = (groups addr).take i.val ++ [group addr i] := by
  have hlt : i.val < (groups addr).length := by
    rw [length_groups]
    exact i.isLt
  rw [List.take_succ_eq_append_getElem hlt]
  simp only [groups, List.getElem_ofFn]

/-- The last group before a position. -/
theorem getLast?_take_groups (addr : Fin 8 → BitVec 16) (i : Fin 8) (hi : i ≠ 0) :
    ((groups addr).take i.val).getLast? = some (group addr (i - 1)) := by
  have hsucc : (i - 1).val + 1 = i.val := by omega
  rw [← hsucc, take_succ_groups, List.getLast?_concat]

/-- The bytes of a group in the order of the network. -/
theorem groupBytes_append (hi lo : BitVec 8) : groupBytes (hi ++ lo).toNat = [hi, lo] := by
  have hlo : lo.toNat < 2 ^ 8 := lo.isLt
  have hvalue : (hi ++ lo).toNat = hi.toNat * 256 + lo.toNat := by
    rw [BitVec.toNat_append, ← Nat.shiftLeft_add_eq_or_of_lt hlo, Nat.shiftLeft_eq]
  have hhigh : (hi ++ lo).toNat / 256 = hi.toNat := by omega
  have hlow : BitVec.ofNat 8 (hi ++ lo).toNat = lo := by
    apply BitVec.eq_of_toNat_eq
    rw [BitVec.toNat_ofNat]
    omega
  rw [groupBytes, hhigh, hlow, BitVec.ofNat_toNat, BitVec.setWidth_eq]

/-- The words of an address are its bytes, two by two. -/
theorem flatMap_groups (m_addr : SockaddrIn6) :
    (groups m_addr.u6_addr16).flatMap groupBytes = m_addr.u6_addr8.toList := by
  have hpair : ∀ i : Fin 8, groupBytes (group m_addr.u6_addr16 i) =
      [m_addr.u6_addr8[2 * i.val], m_addr.u6_addr8[2 * i.val + 1]] := by
    intro i
    rw [group, byteswapOnLittleEndian, SockaddrIn6.u6_addr16, byteswap_append]
    exact groupBytes_append _ _
  have hbytes : m_addr.u6_addr8.toList = List.ofFn fun i : Fin 16 => m_addr.u6_addr8[i.val] := by
    refine List.ext_getElem (by simp) fun i hi _ => ?_
    rw [List.getElem_ofFn, Vector.getElem_toList]
  rw [hbytes, groups]
  simp only [List.ofFn_succ, List.ofFn_zero, List.flatMap_cons, List.flatMap_nil, hpair]
  rfl

/-! ## The loop -/

/-- What the loop has printed behind `start` for the groups `gs`: nothing of the zeros
at the end while no gap is written, and everything behind the gap. -/
inductive Printed (start : Http.Str) (gs : List Nat) : OStream × Bool → Prop
  | whole (ls : List Nat) (zeros : Nat) (hex : Bool) :
      gs = ls ++ List.replicate zeros 0 → (∀ g ∈ ls, g ≠ 0) →
      Printed start gs (⟨start ++ written ls, hex⟩, false)
  | gapped (ls rs : List Nat) (zeros : Nat) (hex : Bool) :
      gs = ls ++ List.replicate zeros 0 ++ rs → 0 < zeros → rs ≠ [] →
      Printed start gs (⟨start ++ (written ls ++ 58 :: 58 :: written rs), hex⟩, true)

/-- A run of zeros ends with one. -/
theorem getLast?_zeros (ls : List Nat) (zeros : Nat) :
    (ls ++ List.replicate (zeros + 1) 0).getLast? = some 0 := by
  rw [List.replicate_succ', ← List.append_assoc, List.getLast?_concat]

/-- A turn without a gap before it prints the group, behind a colon unless it is the
first. -/
theorem insertGroup_plain {addr : Fin 8 → BitVec 16} {os : OStream} {use_zero : Bool} {i : Fin 8}
    (hprint : addr i = 0 → use_zero = true)
    (hgap : i ≠ 0 → addr (i - 1) = 0 → use_zero = true) :
    insertGroup addr (os, use_zero) i =
      (⟨os.text ++ (if i = 0 then [] else [58]) ++ hexNumeral (group addr i), true⟩, use_zero) := by
  have hskip : ¬ (addr i = 0 ∧ use_zero = false) := fun h => by simp [hprint h.1] at h
  have hopen : ¬ (i ≠ 0 ∧ addr (i - 1) = 0 ∧ use_zero = false) :=
    fun h => by simp [hgap h.1 h.2.1] at h
  simp only [insertGroup, if_neg hskip, if_neg hopen]
  by_cases hi : i = 0
  · simp [hi, OStream.setHex, OStream.putNumber, OStream.put, group]
  · simp [hi, OStream.setHex, OStream.putNumber, OStream.put, group, colon]

/-- The first group behind a run of zeros comes after the gap. -/
theorem insertGroup_gap {addr : Fin 8 → BitVec 16} {os : OStream} {i : Fin 8}
    (hprint : addr i ≠ 0) (hi : i ≠ 0) (hgap : addr (i - 1) = 0) :
    insertGroup addr (os, false) i =
      (⟨os.text ++ 58 :: 58 :: hexNumeral (group addr i), true⟩, true) := by
  have hskip : ¬ (addr i = 0 ∧ false = false) := fun h => hprint h.1
  have hopen : i ≠ 0 ∧ addr (i - 1) = 0 ∧ false = false := ⟨hi, hgap, rfl⟩
  unfold insertGroup
  dsimp only
  rw [if_neg hskip, if_pos hopen, if_pos hi]
  simp [OStream.setHex, OStream.putNumber, OStream.put, group, colon]

/-- A turn of the loop prints the next group. -/
theorem printed_turn {addr : Fin 8 → BitVec 16} {start : Http.Str} (i : Fin 8)
    (r : OStream × Bool) (h : Printed start ((groups addr).take i.val) r) :
    Printed start ((groups addr).take (i.val + 1)) (insertGroup addr r i) := by
  have hlast := getLast?_take_groups addr i
  have hlength : ((groups addr).take i.val).length = i.val := by
    rw [List.length_take, length_groups]
    omega
  have hnil : (groups addr).take i.val = [] ↔ i = 0 := by
    rw [← List.length_eq_zero_iff, hlength]
    exact ⟨fun h => Fin.ext h, fun h => congrArg Fin.val h⟩
  rw [take_succ_groups]
  cases h with
  | whole ls zeros hex hgs hls =>
      rw [hgs] at hlast hnil ⊢
      by_cases hzero : addr i = 0
      · -- one more zero at the end
        have hskip : insertGroup addr (⟨start ++ written ls, hex⟩, false) i =
            (⟨start ++ written ls, hex⟩, false) := by
          simp [insertGroup, hzero]
        rw [hskip, (group_eq_zero addr i).mpr hzero, List.append_assoc,
          ← List.replicate_succ']
        exact .whole ls (zeros + 1) hex rfl hls
      · cases zeros with
        | zero =>
            rw [List.replicate_zero, List.append_nil] at hlast hnil ⊢
            have hgap : i ≠ 0 → addr (i - 1) = 0 → false = true := by
              intro hi hprev
              have hmem := List.mem_of_getLast? (hlast hi)
              exact absurd ((group_eq_zero addr (i - 1)).mpr hprev) (hls _ hmem)
            rw [insertGroup_plain (fun h => absurd h hzero) hgap]
            have hls' : ∀ g ∈ ls ++ [group addr i], g ≠ 0 := by
              intro g hg
              rcases List.mem_append.mp hg with hg | hg
              · exact hls g hg
              · rw [List.mem_singleton.mp hg]
                exact fun h => hzero ((group_eq_zero addr i).mp h)
            have htext : start ++ written ls ++ (if i = 0 then [] else [58]) ++
                hexNumeral (group addr i) = start ++ written (ls ++ [group addr i]) := by
              by_cases hi : i = 0
              · rw [hnil.mpr hi, if_pos hi, List.nil_append, written_singleton]
                simp [written]
              · rw [written_concat (fun h => hi (hnil.mp h)), if_neg hi]
                simp
            rw [htext]
            exact .whole (ls ++ [group addr i]) 0 true (by simp) hls'
        | succ zeros =>
            have hi : i ≠ 0 := fun h => by simpa using hnil.mpr h
            have hprev : addr (i - 1) = 0 := by
              have hlast := hlast hi
              rw [getLast?_zeros] at hlast
              exact (group_eq_zero addr (i - 1)).mp (Option.some.inj hlast).symm
            rw [insertGroup_gap hzero hi hprev, ← written_singleton]
            have htext : start ++ written ls ++ 58 :: 58 :: written [group addr i] =
                start ++ (written ls ++ 58 :: 58 :: written [group addr i]) := by
              rw [List.append_assoc]
            simp only [htext]
            exact .gapped ls [group addr i] (zeros + 1) true rfl (Nat.succ_pos zeros) (by simp)
  | gapped ls rs zeros hex hgs hzeros hrs =>
      have hi : i ≠ 0 := by
        intro h
        have hnil := hnil.mpr h
        rw [hgs] at hnil
        exact hrs (List.append_eq_nil_iff.mp hnil).2
      rw [insertGroup_plain (fun _ => rfl) (fun _ _ => rfl), if_neg hi, hgs]
      have htext : start ++ (written ls ++ 58 :: 58 :: written rs) ++ [58] ++
          hexNumeral (group addr i) =
            start ++ (written ls ++ 58 :: 58 :: written (rs ++ [group addr i])) := by
        rw [written_concat hrs]
        simp
      rw [htext, List.append_assoc]
      exact .gapped ls (rs ++ [group addr i]) zeros true rfl hzeros (by simp)

/-- What the loop prints for all eight groups. -/
theorem printed_loop (addr : Fin 8 → BitVec 16) (os : OStream) :
    Printed os.text (groups addr) ((List.finRange 8).foldl (insertGroup addr) (os, false)) := by
  have hloop : Printed os.text ((groups addr).take 8)
      ((List.finRange 8).foldl (insertGroup addr) (os, false)) := by
    refine foldl_finRange (I := fun k => Printed os.text ((groups addr).take k)) printed_turn ?_
    have hstart : Printed os.text [] (⟨os.text ++ written [], os.hex⟩, false) :=
      .whole [] 0 os.hex rfl (by simp)
    simpa [written] using hstart
  rwa [List.take_of_length_le (Nat.le_of_eq (length_groups addr))] at hloop

/-- What stands in the stream after the loop and the port. -/
theorem insert_eq (a : IPv6Address) (os : OStream) {r : OStream × Bool}
    (hr : (List.finRange 8).foldl (insertGroup a.m_addr.u6_addr16)
      (os.put openBracket, false) = r) :
    a.insert os = ((if r.2 = false ∧ a.m_addr.u6_addr16 7 = 0 then r.1.put (colon ++ colon)
      else r.1).put closeBracket).putNumber
        (byteswapOnLittleEndian a.m_addr.sin6_port).toNat := by
  rw [← hr]
  rfl

/-- The text between the brackets: all groups, or the groups around a gap. -/
theorem insert_cases (a : IPv6Address) (os : OStream) :
    ∃ t hex, (a.insert os).text = os.text ++ 91 :: t ++ 93 ::
        ((⟨[], hex⟩ : OStream).putNumber
          (byteswapOnLittleEndian a.m_addr.sin6_port).toNat).text ∧
      (t = written (groups a.m_addr.u6_addr16) ∨
        ∃ ls zeros rs, groups a.m_addr.u6_addr16 = ls ++ List.replicate zeros 0 ++ rs ∧
          0 < zeros ∧ t = written ls ++ 58 :: 58 :: written rs) := by
  have hloop := printed_loop a.m_addr.u6_addr16 (os.put openBracket)
  have hlast : (groups a.m_addr.u6_addr16).getLast? = some (group a.m_addr.u6_addr16 7) := by
    have htake : (groups a.m_addr.u6_addr16).take 8 = groups a.m_addr.u6_addr16 :=
      List.take_of_length_le (Nat.le_of_eq (length_groups _))
    have hsucc := take_succ_groups a.m_addr.u6_addr16 7
    rw [← htake]
    exact (congrArg List.getLast? hsucc).trans List.getLast?_concat
  generalize hr : (List.finRange 8).foldl (insertGroup a.m_addr.u6_addr16)
    (os.put openBracket, false) = r at hloop
  rw [insert_eq a os hr]
  cases hloop with
  | whole ls zeros hex hgs hls =>
      rw [hgs] at hlast
      cases zeros with
      | zero =>
          have hseven : a.m_addr.u6_addr16 7 ≠ 0 := by
            intro h
            rw [List.replicate_zero, List.append_nil] at hlast
            exact hls _ (List.mem_of_getLast? hlast) ((group_eq_zero _ 7).mpr h)
          refine ⟨written ls, hex, ?_, Or.inl (by rw [hgs]; simp)⟩
          rw [if_neg fun h => hseven h.2]
          simp [OStream.putNumber, OStream.put, openBracket, closeBracket]
      | succ zeros =>
          have hseven : a.m_addr.u6_addr16 7 = 0 := by
            rw [getLast?_zeros] at hlast
            exact (group_eq_zero _ 7).mp (Option.some.inj hlast).symm
          refine ⟨written ls ++ [58, 58], hex, ?_,
            Or.inr ⟨ls, zeros + 1, [], by rw [hgs]; simp, Nat.succ_pos zeros, by simp [written]⟩⟩
          rw [if_pos ⟨rfl, hseven⟩]
          simp [OStream.putNumber, OStream.put, openBracket, closeBracket, colon]
  | gapped ls rs zeros hex hgs hzeros _ =>
      refine ⟨written ls ++ 58 :: 58 :: written rs, hex, ?_,
        Or.inr ⟨ls, zeros, rs, hgs, hzeros, rfl⟩⟩
      rw [if_neg fun h => Bool.noConfusion h.1]
      simp [OStream.putNumber, OStream.put, openBracket, closeBracket]

/-- Eight groups that are written out denote the address. -/
theorem denotes_written (a : IPv6Address) :
    denotes (written (groups a.m_addr.u6_addr16)) = some a.m_addr.u6_addr8.toList := by
  have hread := readGroups_written (groups_lt a.m_addr.u6_addr16)
  rw [length_groups] at hread
  rw [denotes, hread, Option.map_some, flatMap_groups]

/-- Groups with two colons for a run of zeros denote the address. -/
theorem denotes_gap (a : IPv6Address) {ls rs : List Nat} {zeros : Nat}
    (hgs : groups a.m_addr.u6_addr16 = ls ++ List.replicate zeros 0 ++ rs) (hzeros : 0 < zeros) :
    denotes (written ls ++ 58 :: 58 :: written rs) = some a.m_addr.u6_addr8.toList := by
  have hlt := groups_lt a.m_addr.u6_addr16
  have hcount := length_groups a.m_addr.u6_addr16
  rw [hgs] at hlt hcount
  have hread := readGroups_gap hzeros
    (fun g hg => hlt g (List.mem_append_left _ (List.mem_append_left _ hg)))
    (fun g hg => hlt g (List.mem_append_right _ hg))
  rw [List.length_append, List.length_append, List.length_replicate] at hcount
  rw [hcount, ← hgs] at hread
  rw [denotes, hread, Option.map_some, flatMap_groups]

/-- A digit is no bracket. -/
theorem hexDigit_ne_bracket {d : Nat} (hd : d < 16) : hexDigit d ≠ 91 ∧ hexDigit d ≠ 93 := by
  interval_cases d <;> decide

/-- No bracket is written between the brackets. -/
theorem bracket_not_mem_written (gs : List Nat) : 91 ∉ written gs ∧ 93 ∉ written gs :=
  ⟨not_mem_written (fun _ hd => (hexDigit_ne_bracket hd).1) (by decide) gs,
    not_mem_written (fun _ hd => (hexDigit_ne_bracket hd).2) (by decide) gs⟩

/-- **The text reads back.**  For every IPv6 address and every stream, what `insert`
writes between the brackets is a text of the RFC 4291 grammar and denotes the 16 bytes
of the address. -/
theorem IPv6Address.insert_denotes (a : IPv6Address) (os : OStream) :
    ∃ t tail, (a.insert os).text = os.text ++ 91 :: t ++ 93 :: tail ∧
      91 ∉ t ∧ 93 ∉ t ∧ denotes t = some a.m_addr.u6_addr8.toList := by
  obtain ⟨t, hex, hinsert, hcases⟩ := insert_cases a os
  refine ⟨t, _, hinsert, ?_⟩
  rcases hcases with rfl | ⟨ls, zeros, rs, hgs, hzeros, rfl⟩
  · have hbracket := bracket_not_mem_written (groups a.m_addr.u6_addr16)
    exact ⟨hbracket.1, hbracket.2, denotes_written a⟩
  · have hls := bracket_not_mem_written ls
    have hrs := bracket_not_mem_written rs
    exact ⟨by simp [hls.1, hrs.1], by simp [hls.2, hrs.2], denotes_gap a hgs hzeros⟩

end Net

end Agent
