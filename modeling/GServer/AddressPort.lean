import GServer.Address

/-!
# Ports

The ways to give an address a port.  `inet_pton` and `getaddrinfo` are parameters.

Constructors and `Create` swap the port at 32 bits and keep the low half, which holds
the bytes of its high half; an IPv6 address is printed without a colon before its port.
`Net.survives_iff` says which constructions keep a port.
-/

namespace Agent

open ByteSwap

namespace Net

/-! ## The library calls -/

/-- How `inet_pton` ends: the address is written only on success. -/
inductive Pton (A : Type)
  | success (addr : A)
  | malformed
  | unsupported
deriving DecidableEq

namespace Pton

variable {A : Type}

/-- The value returned. -/
def result : Pton A → Int
  | success _ => 1
  | malformed => 0
  | unsupported => -1

/-- What the destination holds afterwards. -/
def dst (r : Pton A) (before : A) : A :=
  match r with
  | success addr => addr
  | malformed => before
  | unsupported => before

def Accepts (r : Pton A) : Prop :=
  ∃ addr, r = success addr

end Pton

/-- `sockaddr`, by its family. -/
inductive Sockaddr
  | inet (m_addr : SockaddrIn)
  | inet6 (m_addr : SockaddrIn6)
  | other (sa_family : Family)
deriving DecidableEq

/-- `inet_pton` for both families, and the first address that `getaddrinfo` finds for a
numeric host, `none` where it reports an error. -/
structure Resolver where
  inet_pton4 : Http.Str → Pton (BitVec 32)
  inet_pton6 : Http.Str → Pton (Vector (BitVec 8) 16)
  getaddrinfo : Http.Str → Option Sockaddr

/-! ## Building an address -/

/-- `IPAddress`. -/
inductive IPAddress
  | ipv4 (a : IPv4Address)
  | ipv6 (a : IPv6Address)
deriving DecidableEq

namespace IPv4Address

/-- `IPv4Address::IPv4Address(address, port)`: the swapped port is cut to 16 bits. -/
def new (address port : BitVec 32) : IPv4Address where
  m_addr :=
    { sin_family := AF_INET
      sin_port := (byteswapOnLittleEndian port).setWidth 16
      s_addr := byteswapOnLittleEndian address }

def getPort (a : IPv4Address) : BitVec 32 :=
  (byteswapOnLittleEndian a.m_addr.sin_port).setWidth 32

def setPort (a : IPv4Address) (port : BitVec 16) : IPv4Address where
  m_addr := { a.m_addr with sin_port := byteswapOnLittleEndian port }

/-- `IPv4Address::Create`. -/
def Create (r : Resolver) (address : Http.Str) (port : BitVec 32) : Option IPv4Address :=
  let rt := { (new 0 0).m_addr with sin_port := (byteswapOnLittleEndian port).setWidth 16 }
  let result := r.inet_pton4 address
  if result.result < 0 then none
  else some ⟨{ rt with s_addr := result.dst rt.s_addr }⟩

end IPv4Address

namespace IPv6Address

/-- `IPv6Address::IPv6Address(address, port)`. -/
def new (address : Vector (BitVec 8) 16) (port : BitVec 32) : IPv6Address where
  m_addr :=
    { sin6_family := AF_INET6
      sin6_port := (byteswapOnLittleEndian port).setWidth 16
      sin6_flowinfo := 0
      u6_addr8 := address
      sin6_scope_id := 0 }

def getPort (a : IPv6Address) : BitVec 32 :=
  (byteswapOnLittleEndian a.m_addr.sin6_port).setWidth 32

def setPort (a : IPv6Address) (port : BitVec 16) : IPv6Address where
  m_addr := { a.m_addr with sin6_port := byteswapOnLittleEndian port }

/-- `IPv6Address::Create`. -/
def Create (r : Resolver) (address : Http.Str) (port : BitVec 32) : Option IPv6Address :=
  let rt := { (new (Vector.replicate 16 0) 0).m_addr with
    sin6_port := (byteswapOnLittleEndian port).setWidth 16 }
  let result := r.inet_pton6 address
  if result.result < 0 then none
  else some ⟨{ rt with u6_addr8 := result.dst rt.u6_addr8 }⟩

end IPv6Address

namespace IPAddress

def getPort : IPAddress → BitVec 32
  | ipv4 a => a.getPort
  | ipv6 a => a.getPort

def setPort : IPAddress → BitVec 16 → IPAddress
  | ipv4 a, port => ipv4 (a.setPort port)
  | ipv6 a, port => ipv6 (a.setPort port)

def toString : IPAddress → Http.Str
  | ipv4 a => a.toString
  | ipv6 a => a.toString

/-- `Address::Create` with the cast to `IPAddress`. -/
def ofSockaddr : Sockaddr → Option IPAddress
  | .inet m_addr => some (ipv4 ⟨m_addr⟩)
  | .inet6 m_addr => some (ipv6 ⟨m_addr⟩)
  | .other _ => none

/-- `IPAddress::Create`: `setPort` takes the port as `uint16_t`. -/
def Create (r : Resolver) (address : Http.Str) (port : BitVec 32) : Option IPAddress :=
  match r.getaddrinfo address with
  | none => none
  | some addr => (ofSockaddr addr).map fun result => result.setPort (port.setWidth 16)

end IPAddress

/-- The ways to build an address with a port. -/
inductive Construction
  | ipv4 (address : BitVec 32)
  | ipv6 (address : Vector (BitVec 8) 16)
  | ipv4Create (address : Http.Str)
  | ipv6Create (address : Http.Str)
  | ipCreate (address : Http.Str)
  | setPort (a : IPAddress)

/-- The address built with the port `p`, `none` for a null pointer. -/
def Construction.build (r : Resolver) (p : BitVec 16) : Construction → Option IPAddress
  | ipv4 address => some (.ipv4 (IPv4Address.new address (p.setWidth 32)))
  | ipv6 address => some (.ipv6 (IPv6Address.new address (p.setWidth 32)))
  | ipv4Create address => (IPv4Address.Create r address (p.setWidth 32)).map .ipv4
  | ipv6Create address => (IPv6Address.Create r address (p.setWidth 32)).map .ipv6
  | ipCreate address => IPAddress.Create r address (p.setWidth 32)
  | setPort a => some (a.setPort p)

/-! ## What is to be kept -/

/-- The address has the port, and its text ends in it. -/
structure HasPort (a : IPAddress) (p : BitVec 16) : Prop where
  getPort : a.getPort = p.setWidth 32
  toString : 58 :: TextLines.numeral p.toNat <:+ a.toString

/-- `Create` of one family returns null exactly for the texts that `inet_pton` does not
accept. -/
def NullWhenRejected (r : Resolver) (p : BitVec 16) (c : Construction) : Prop :=
  match c with
  | .ipv4Create address => c.build r p = none ↔ ¬ (r.inet_pton4 address).Accepts
  | .ipv6Create address => c.build r p = none ↔ ¬ (r.inet_pton6 address).Accepts
  | _ => True

/-- The construction keeps the port of every address it builds. -/
structure Survives (r : Resolver) (p : BitVec 16) (c : Construction) : Prop where
  hasPort : ∀ a, c.build r p = some a → HasPort a p
  nullWhenRejected : NullWhenRejected r p c

/-- An IPv4 address gets the port 0 or its port from `setPort`, and `inet_pton` does not
report a malformed text; an IPv6 address is not built. -/
def PortSafe (r : Resolver) (p : BitVec 16) : Construction → Prop
  | .ipv4 _ => p = 0
  | .ipv6 _ => False
  | .ipv4Create address =>
      r.inet_pton4 address = .unsupported ∨ (r.inet_pton4 address).Accepts ∧ p = 0
  | .ipv6Create address => r.inet_pton6 address = .unsupported
  | .ipCreate address => ∀ m_addr, r.getaddrinfo address ≠ some (.inet6 m_addr)
  | .setPort a => ∀ v6, a ≠ .ipv6 v6

/-! ## The words -/

/-- The low half of a port that was swapped at 32 bits is the high half of the port. -/
theorem setWidth_byteswap_port (p : BitVec 16) :
    (byteswapOnLittleEndian (p.setWidth 32)).setWidth 16 = 0 := by
  have hhigh : (p.setWidth (16 + 16)).extractLsb' 16 16 = 0 := by
    apply BitVec.eq_of_getLsbD_eq
    intro i hi
    simp
  have hswap := setWidth_byteswap (n := 16) (by decide) (p.setWidth (16 + 16))
  rw [hhigh] at hswap
  exact hswap.trans (by decide)

/-- Port 0 is the same in both byte orders. -/
theorem byteswap_zero : byteswapOnLittleEndian (0 : BitVec 16) = 0 := by
  decide

/-- Widening a port loses nothing. -/
theorem setWidth_port_inj {p q : BitVec 16} : p.setWidth 32 = q.setWidth 32 ↔ p = q := by
  constructor
  · intro h
    have hback := congrArg (BitVec.setWidth 16) h
    simpa using hback
  · exact congrArg _

/-! ## The texts -/

/-- The text of an IPv4 address ends in a colon and its port in decimal. -/
theorem IPv4Address.toString_eq (a : IPv4Address) :
    ∃ front, a.toString = front ++ 58 ::
      TextLines.numeral (byteswapOnLittleEndian a.m_addr.sin_port).toNat := by
  let addr := byteswapOnLittleEndian a.m_addr.s_addr
  refine ⟨TextLines.numeral ((addr >>> 24) &&& 0xff).toNat ++ dot ++
    TextLines.numeral ((addr >>> 16) &&& 0xff).toNat ++ dot ++
    TextLines.numeral ((addr >>> 8) &&& 0xff).toNat ++ dot ++
    TextLines.numeral (addr &&& 0xff).toNat, ?_⟩
  simp [IPv4Address.toString, IPv4Address.insert, OStream.new, OStream.putNumber, OStream.put,
    colon, addr]

/-- A number in either base has neither a colon nor a bracket. -/
theorem not_mem_putNumber (hex : Bool) (n : Nat) :
    58 ∉ ((⟨[], hex⟩ : OStream).putNumber n).text ∧
      93 ∉ ((⟨[], hex⟩ : OStream).putNumber n).text := by
  have hdecimal : ∀ b : UInt8, TextLines.isDigit b = false → b ∉ TextLines.numeral n :=
    fun b hb => TextLines.not_mem_numeral hb n
  cases hex with
  | false => exact ⟨hdecimal 58 (by decide), hdecimal 93 (by decide)⟩
  | true =>
      exact ⟨GroupText.colon_not_mem_hexNumeral n,
        GroupText.not_mem_hexNumeral (fun _ hd => (hexDigit_ne_bracket hd).2) n⟩

/-- Behind the bracket of an IPv6 address there is no colon. -/
theorem IPv6Address.not_suffix_toString (a : IPv6Address) (n : Nat) :
    ¬ 58 :: TextLines.numeral n <:+ a.toString := by
  obtain ⟨t, hex, hinsert, -⟩ := insert_cases a .new
  obtain ⟨hcolon, -⟩ := not_mem_putNumber hex (byteswapOnLittleEndian a.m_addr.sin6_port).toNat
  have hbracket : (93 : UInt8) ∉ 58 :: TextLines.numeral n := by
    simp [TextLines.not_mem_numeral (b := 93) (by decide) n]
  intro hsuffix
  rw [IPv6Address.toString, hinsert] at hsuffix
  generalize ((⟨[], hex⟩ : OStream).putNumber _).text = port at hsuffix hcolon
  -- the suffix ends before the bracket or reaches it
  have hport : 93 :: port <:+ OStream.new.text ++ 91 :: t ++ 93 :: port := List.suffix_append _ _
  rcases List.suffix_or_suffix_of_suffix hsuffix hport with h | h
  · rcases List.suffix_cons_iff.mp h with heq | hshort
    · exact absurd (List.cons.inj heq).1 (by decide)
    · exact hcolon (hshort.subset List.mem_cons_self)
  · exact hbracket (h.subset List.mem_cons_self)

/-! ## Who has a port -/

/-- An IPv4 address has the port that its field holds in network order. -/
theorem hasPort_ipv4_iff (a : IPv4Address) (p : BitVec 16) :
    HasPort (.ipv4 a) p ↔ byteswapOnLittleEndian a.m_addr.sin_port = p := by
  constructor
  · exact fun h => setWidth_port_inj.mp h.getPort
  · intro h
    obtain ⟨front, htext⟩ := a.toString_eq
    refine ⟨setWidth_port_inj.mpr h, ⟨front, ?_⟩⟩
    rw [IPAddress.toString, htext, h]

/-- `getPort` of an IPv6 address answers for no port. -/
theorem not_hasPort_ipv6 (a : IPv6Address) (p : BitVec 16) : ¬ HasPort (.ipv6 a) p :=
  fun h => a.not_suffix_toString _ h.toString

/-- An IPv4 address whose port went through 32 bits has the port 0. -/
theorem hasPort_wide_iff {a : IPv4Address} {p : BitVec 16}
    (h : a.m_addr.sin_port = (byteswapOnLittleEndian (p.setWidth 32)).setWidth 16) :
    HasPort (.ipv4 a) p ↔ p = 0 := by
  rw [hasPort_ipv4_iff, h, setWidth_byteswap_port, byteswap_zero]
  exact eq_comm

/-- The port that is set is the port that is read. -/
theorem hasPort_setPort_ipv4 (a : IPv4Address) (p : BitVec 16) :
    HasPort (.ipv4 (a.setPort p)) p :=
  (hasPort_ipv4_iff _ p).mpr (byteswap_byteswap (by decide) p)

/-! ## The constructions -/

/-- `IPv4Address::Create` returns null where `inet_pton` knows no such family, and only
there. -/
theorem IPv4Address.Create_cases (r : Resolver) (address : Http.Str) (p : BitVec 32) :
    (r.inet_pton4 address = .unsupported ∧ IPv4Address.Create r address p = none) ∨
      (r.inet_pton4 address ≠ .unsupported ∧ ∃ a, IPv4Address.Create r address p = some a ∧
        a.m_addr.sin_port = (byteswapOnLittleEndian p).setWidth 16) := by
  unfold IPv4Address.Create
  cases r.inet_pton4 address with
  | success addr => exact Or.inr ⟨by simp, _, rfl, rfl⟩
  | malformed => exact Or.inr ⟨by simp, _, rfl, rfl⟩
  | unsupported => exact Or.inl ⟨rfl, rfl⟩

/-- `Create` gives nothing exactly when the family is not supported. -/
theorem IPv6Address.Create_cases (r : Resolver) (address : Http.Str) (p : BitVec 32) :
    (r.inet_pton6 address = .unsupported ∧ IPv6Address.Create r address p = none) ∨
      (r.inet_pton6 address ≠ .unsupported ∧ ∃ a, IPv6Address.Create r address p = some a) := by
  unfold IPv6Address.Create
  cases r.inet_pton6 address with
  | success addr => exact Or.inr ⟨by simp, _, rfl⟩
  | malformed => exact Or.inr ⟨by simp, _, rfl⟩
  | unsupported => exact Or.inl ⟨rfl, rfl⟩

/-- An unsupported family accepts no text. -/
theorem not_accepts_unsupported {A : Type} {r : Pton A} (h : r = .unsupported) : ¬ r.Accepts := by
  rintro ⟨addr, heq⟩
  rw [h] at heq
  cases heq

/-- The port survives `IPv4Address::Create` exactly when it is safe there. -/
theorem survives_ipv4Create_iff (r : Resolver) (p : BitVec 16) (address : Http.Str) :
    Survives r p (.ipv4Create address) ↔ PortSafe r p (.ipv4Create address) := by
  rcases IPv4Address.Create_cases r address (p.setWidth 32) with ⟨hpton, hnone⟩ |
    ⟨hpton, a, hsome, hport⟩
  · have hbuild : (Construction.ipv4Create address).build r p = none := by
      rw [Construction.build, hnone, Option.map_none]
    refine iff_of_true ⟨fun a ha => ?_, ?_⟩ (Or.inl hpton)
    · rw [hbuild] at ha
      cases ha
    · exact iff_of_true hbuild (not_accepts_unsupported hpton)
  · have hbuild : (Construction.ipv4Create address).build r p = some (.ipv4 a) := by
      rw [Construction.build, hsome, Option.map_some]
    constructor
    · intro h
      have haccepts : (r.inet_pton4 address).Accepts := by
        by_contra hreject
        have hnull := h.nullWhenRejected.mpr hreject
        rw [hbuild] at hnull
        cases hnull
      exact Or.inr ⟨haccepts, (hasPort_wide_iff hport).mp (h.hasPort _ hbuild)⟩
    · rintro (hun | ⟨haccepts, hp⟩)
      · exact absurd hun hpton
      · refine ⟨fun b hb => ?_, iff_of_false ?_ (not_not_intro haccepts)⟩
        · rw [hbuild] at hb
          rw [← Option.some.inj hb]
          exact (hasPort_wide_iff hport).mpr hp
        · rw [hbuild]
          exact nofun

/-- The port survives `IPv6Address::Create` exactly when it is safe there. -/
theorem survives_ipv6Create_iff (r : Resolver) (p : BitVec 16) (address : Http.Str) :
    Survives r p (.ipv6Create address) ↔ PortSafe r p (.ipv6Create address) := by
  rcases IPv6Address.Create_cases r address (p.setWidth 32) with ⟨hpton, hnone⟩ |
    ⟨hpton, a, hsome⟩
  · have hbuild : (Construction.ipv6Create address).build r p = none := by
      rw [Construction.build, hnone, Option.map_none]
    refine iff_of_true ⟨fun a ha => ?_, ?_⟩ hpton
    · rw [hbuild] at ha
      cases ha
    · exact iff_of_true hbuild (not_accepts_unsupported hpton)
  · have hbuild : (Construction.ipv6Create address).build r p = some (.ipv6 a) := by
      rw [Construction.build, hsome, Option.map_some]
    exact iff_of_false (fun h => not_hasPort_ipv6 a p (h.hasPort _ hbuild)) hpton

/-- The port survives `IPAddress::Create` exactly when it is safe there. -/
theorem survives_ipCreate_iff (r : Resolver) (p : BitVec 16) (address : Http.Str) :
    Survives r p (.ipCreate address) ↔ PortSafe r p (.ipCreate address) := by
  have hport : (p.setWidth 32).setWidth 16 = p := by simp
  cases hfound : r.getaddrinfo address with
  | none =>
      have hbuild : (Construction.ipCreate address).build r p = none := by
        simp only [Construction.build, IPAddress.Create, hfound]
      refine iff_of_true ⟨fun a ha => ?_, trivial⟩ fun m_addr h => ?_
      · rw [hbuild] at ha
        cases ha
      · rw [hfound] at h
        cases h
  | some addr =>
      have hbuild : (Construction.ipCreate address).build r p =
          (IPAddress.ofSockaddr addr).map fun result => result.setPort p := by
        simp only [Construction.build, IPAddress.Create, hfound, hport]
      cases addr with
      | inet m_addr =>
          refine iff_of_true ⟨fun a ha => ?_, trivial⟩ fun m_addr h => ?_
          · rw [hbuild] at ha
            rw [← Option.some.inj ha]
            exact hasPort_setPort_ipv4 ⟨m_addr⟩ p
          · rw [hfound] at h
            cases h
      | inet6 m_addr =>
          refine iff_of_false (fun h => ?_) fun h => h m_addr hfound
          exact not_hasPort_ipv6 _ p (h.hasPort _ hbuild)
      | other sa_family =>
          refine iff_of_true ⟨fun a ha => ?_, trivial⟩ fun m_addr h => ?_
          · rw [hbuild] at ha
            cases ha
          · rw [hfound] at h
            cases h

/-- **Which constructions keep a port.**  For every port and every construction, the
address has the port and its text ends in it, and `Create` of one family is null exactly
for the texts that are not accepted, exactly when an IPv4 address gets the port 0 or is
given its port by `setPort`, no malformed text is passed, and no IPv6 address is built. -/
theorem survives_iff (r : Resolver) (p : BitVec 16) (c : Construction) :
    Survives r p c ↔ PortSafe r p c := by
  cases c with
  | ipv4 address =>
      have hnew := hasPort_wide_iff (a := IPv4Address.new address (p.setWidth 32)) (p := p) rfl
      constructor
      · exact fun h => hnew.mp (h.hasPort _ rfl)
      · refine fun hp => ⟨fun a ha => ?_, trivial⟩
        rw [← Option.some.inj ha]
        exact hnew.mpr hp
  | ipv6 address =>
      exact iff_of_false (fun h => not_hasPort_ipv6 _ p (h.hasPort _ rfl)) fun h => h
  | ipv4Create address => exact survives_ipv4Create_iff r p address
  | ipv6Create address => exact survives_ipv6Create_iff r p address
  | ipCreate address => exact survives_ipCreate_iff r p address
  | setPort a =>
      cases a with
      | ipv4 a =>
          refine iff_of_true ⟨fun b hb => ?_, trivial⟩ fun v6 h => by cases h
          rw [← Option.some.inj hb]
          exact hasPort_setPort_ipv4 a p
      | ipv6 a =>
          exact iff_of_false (fun h => not_hasPort_ipv6 _ p (h.hasPort _ rfl)) fun h => h a rfl

/-- The constructor for 127.0.0.1 and the port 80 gives the port 0. -/
theorem constructor_loses_port :
    ¬ ∀ (r : Resolver) (p : BitVec 16) (c : Construction), Survives r p c := by
  intro hall
  let r : Resolver := ⟨fun _ => .malformed, fun _ => .malformed, fun _ => none⟩
  have hkept := (hall r 80 (.ipv4 0x7f000001)).hasPort _ rfl
  have hzero : (80 : BitVec 16) = 0 := (hasPort_wide_iff rfl).mp hkept
  exact absurd hzero (by decide)

end Net

end Agent
