import GServer.Http
import Mathlib.Data.List.TakeWhile

/-!
# Host and service

`Address::Lookup` cuts a host string with pointers into `c_str()`: here a pointer is an
offset, and the byte behind the last one is the terminator.

`service` is the result of the search for a colon before it is the result of the cut.
`Net.splits_iff` says that this is visible for bare IPv6 addresses, and for nothing else
that the grammar of hosts covers.
-/

namespace Agent

open Http

namespace Net

/-! ## The cut -/

/-- `memchr(host.c_str() + start, c, count)`, as an offset into `host`. -/
def memchr (host : Str) (start : Nat) (c : UInt8) (count : Nat) : Option Nat :=
  (((host.drop start).take count).findIdx? (· = c)).map (start + ·)

/-- `*(host.c_str() + i)`. -/
def charAt (host : Str) (i : Nat) : Option UInt8 :=
  (host ++ [0])[i]?

/-- The first block: `node` and `service` of a host in brackets. -/
def checkIpv6 (host : Str) : Str × Option Nat :=
  if host.head? = some 91 then
    match memchr host 1 93 (host.length - 1) with
    | some endipv6 =>
        ((host.drop 1).take (endipv6 - 1),
          if charAt host (endipv6 + 1) = some 58 then some (endipv6 + 2) else none)
    | none => ([], none)
  else ([], none)

/-- The second block: `node` and `service` around a colon. -/
def checkNode (host : Str) : Str × Option Nat :=
  match memchr host 0 58 host.length with
  | some service =>
      if (memchr host (service + 1) 58 (host.length - service - 1)).isNone then
        (host.take service, some (service + 1))
      else ([], some service)
  | none => ([], none)

/-- `node` and `service` behind both blocks. -/
def splitHost (host : Str) : Str × Option Nat :=
  let (node, service) := checkIpv6 host
  let (node, service) := if node = [] then checkNode host else (node, service)
  (if node = [] then host else node, service)

/-- The C strings that `getaddrinfo` is given. -/
def lookupArgs (host : Str) : Str × Option Str :=
  let (node, service) := splitHost host
  (cStr node, service.map fun i => cStr (host.drop i))

/-! ## The grammar -/

/-- The host starts with `[h]`. -/
def Bracketed (host h rest : Str) : Prop :=
  h ≠ [] ∧ 93 ∉ h ∧ host = 91 :: (h ++ 93 :: rest)

/-- No part in brackets at the start. -/
def Unbracketed (host : Str) : Prop :=
  ∀ h rest, ¬ Bracketed host h rest

/-- Two or more colons and no brackets. -/
def BareIPv6 (host : Str) : Prop :=
  2 ≤ host.count 58 ∧ 91 ∉ host ∧ 93 ∉ host

instance (host : Str) : Decidable (BareIPv6 host) :=
  inferInstanceAs (Decidable (_ ∧ _))

/-- What is to be passed for the host. -/
structure Splits (host : Str) : Prop where
  bracketed : ∀ h, Bracketed host h [] → lookupArgs host = (h, none)
  bracketedService : ∀ h s, Bracketed host h (58 :: s) → lookupArgs host = (h, some s)
  nodeService : Unbracketed host → ∀ h s, h ≠ [] → 58 ∉ h → 58 ∉ s → host = h ++ 58 :: s →
    lookupArgs host = (h, some s)
  plain : Unbracketed host → 58 ∉ host → lookupArgs host = (host, none)
  bare : BareIPv6 host → lookupArgs host = (host, none)

/-! ## The search -/

/-- The first place of a byte is the end of what lacks it. -/
theorem findIdx?_append_self {c : UInt8} {xs : Str} (h : c ∉ xs) (ys : Str) :
    (xs ++ c :: ys).findIdx? (· = c) = some xs.length := by
  induction xs with
  | nil => simp [List.findIdx?_cons]
  | cons b xs ih =>
      simp only [List.mem_cons, not_or] at h
      obtain ⟨hb, hxs⟩ := h
      rw [List.cons_append, List.findIdx?_cons, if_neg (by simpa using Ne.symm hb), ih hxs]
      rfl

theorem findIdx?_eq_none {c : UInt8} {xs : Str} (h : c ∉ xs) :
    xs.findIdx? (· = c) = none :=
  List.findIdx?_eq_none_iff.mpr fun _ hb => decide_eq_false fun heq => h (heq ▸ hb)

/-- The search over the rest of the string behind `front`. -/
theorem memchr_found (front : Str) {xs : Str} {c : UInt8} (h : c ∉ xs) (ys : Str) {count : Nat}
    (hcount : count = xs.length + ys.length + 1) :
    memchr (front ++ (xs ++ c :: ys)) front.length c count = some (front.length + xs.length) := by
  have hall : (xs ++ c :: ys).take count = xs ++ c :: ys :=
    List.take_of_length_le (by simp; omega)
  rw [memchr, List.drop_left, hall, findIdx?_append_self h, Option.map_some]

/-- A byte that is not there is not found. -/
theorem memchr_missing (front : Str) {xs : Str} {c : UInt8} (h : c ∉ xs) (count : Nat) :
    memchr (front ++ xs) front.length c count = none := by
  rw [memchr, List.drop_left, findIdx?_eq_none fun hmem => h (List.mem_of_mem_take hmem),
    Option.map_none]

/-- A text without a zero is a C string. -/
theorem cStr_eq {s : Str} (h : 0 ∉ s) : cStr s = s := by
  rw [cStr, List.takeWhile_eq_self_iff]
  exact fun _ hb => decide_eq_true fun heq => h (heq ▸ hb)

/-! ## The blocks -/

/-- What is in brackets is the node, and a service may follow. -/
theorem checkIpv6_of_bracket {h : Str} (hh : 93 ∉ h) (rest : Str) :
    checkIpv6 (91 :: (h ++ 93 :: rest)) =
      (h, if rest.head? = some 58 then some (h.length + 3) else none) := by
  have hcount : (91 :: (h ++ 93 :: rest)).length - 1 = h.length + rest.length + 1 := by
    simp
    omega
  have hfound : memchr (91 :: (h ++ 93 :: rest)) 1 93 ((91 :: (h ++ 93 :: rest)).length - 1) =
      some (1 + h.length) :=
    memchr_found [91] hh rest hcount
  have hnode : ((91 :: (h ++ 93 :: rest)).drop 1).take (1 + h.length - 1) = h := by
    rw [Nat.add_sub_cancel_left]
    exact List.take_left
  have hnext : charAt (91 :: (h ++ 93 :: rest)) (1 + h.length + 1) = (rest ++ [0])[0]? := by
    have hsplit : 91 :: (h ++ 93 :: rest) ++ [0] = (91 :: h ++ [93]) ++ (rest ++ [0]) := by simp
    have hlength : (91 :: h ++ [93]).length = 1 + h.length + 1 := by
      simp
      omega
    rw [charAt, hsplit, ← hlength, List.getElem?_append_right (Nat.le_refl _), Nat.sub_self]
  have hcolon : (rest ++ [0])[0]? = some 58 ↔ rest.head? = some 58 := by
    cases rest with
    | nil => simp
    | cons b rest => simp
  simp only [checkIpv6, List.head?_cons, if_pos, hfound, hnode, hnext, hcolon]
  have hoffset : 1 + h.length + 2 = h.length + 3 := by omega
  rw [hoffset]

/-- Without a bracket at the start, or without one that closes it, nothing is set. -/
theorem checkIpv6_of_not_bracket {host : Str} (hhost : ∀ h rest, 93 ∉ h →
    host ≠ 91 :: (h ++ 93 :: rest)) : checkIpv6 host = ([], none) := by
  cases host with
  | nil => rfl
  | cons b text =>
      by_cases hb : b = 91
      · subst hb
        have hmissing : 93 ∉ text := by
          intro hmem
          obtain ⟨h, rest, rfl, hh⟩ := List.eq_append_cons_of_mem hmem
          exact hhost h rest hh rfl
        have hnone : memchr (91 :: text) 1 93 ((91 :: text).length - 1) = none :=
          memchr_missing [91] hmissing _
        simp only [checkIpv6, List.head?_cons, if_pos, hnone]
      · have hhead : ¬ (b :: text).head? = some 91 := fun h => hb (Option.some.inj h)
        rw [checkIpv6, if_neg hhead]

/-- Every host without a part in brackets leaves the first block without a node. -/
theorem checkIpv6_of_unbracketed {host : Str} (h : Unbracketed host) : (checkIpv6 host).1 = [] := by
  by_cases hclosed : ∃ h rest, 93 ∉ h ∧ host = 91 :: (h ++ 93 :: rest)
  · obtain ⟨node, rest, hnode, rfl⟩ := hclosed
    rw [checkIpv6_of_bracket hnode]
    by_contra hne
    exact h node rest ⟨hne, hnode, rfl⟩
  · rw [checkIpv6_of_not_bracket fun node rest hnode heq => hclosed ⟨node, rest, hnode, heq⟩]

/-- Without a colon there is no node to cut off. -/
theorem checkNode_of_not_mem {host : Str} (h : 58 ∉ host) : checkNode host = ([], none) := by
  have hnone : memchr host 0 58 host.length = none := memchr_missing [] h _
  simp only [checkNode, hnone]

/-- The first colon: the cut is made where no second one follows. -/
theorem checkNode_of_colon {h : Str} (hh : 58 ∉ h) (s : Str) :
    checkNode (h ++ 58 :: s) =
      if 58 ∈ s then ([], some h.length) else (h, some (h.length + 1)) := by
  have hfirst : memchr (h ++ 58 :: s) 0 58 (h ++ 58 :: s).length = some h.length := by
    have hcount : (h ++ 58 :: s).length = h.length + s.length + 1 := by
      simp
      omega
    simpa using memchr_found [] hh s hcount
  have hsplit : h ++ 58 :: s = (h ++ [58]) ++ s := by simp
  have hlength : (h ++ [58]).length = h.length + 1 := by simp
  simp only [checkNode, hfirst, List.take_left]
  by_cases hmem : 58 ∈ s
  · obtain ⟨mid, rest, rfl, hmid⟩ := List.eq_append_cons_of_mem hmem
    have hcount : (h ++ 58 :: (mid ++ 58 :: rest)).length - h.length - 1 =
        mid.length + rest.length + 1 := by
      simp
      omega
    have hsecond := memchr_found (h ++ [58]) hmid rest hcount
    rw [hlength, ← hsplit] at hsecond
    rw [hsecond, if_pos hmem]
    rfl
  · have hsecond := memchr_missing (h ++ [58]) hmem
      ((h ++ 58 :: s).length - h.length - 1)
    rw [hlength, ← hsplit] at hsecond
    rw [hsecond, if_neg hmem]
    rfl

/-! ## The whole -/

/-- A node from the brackets is kept. -/
theorem lookupArgs_of_bracketed {host h rest : Str} (hzero : 0 ∉ host)
    (hhost : Bracketed host h rest) :
    lookupArgs host = (h, if rest.head? = some 58 then some rest.tail else none) := by
  obtain ⟨hne, hh, rfl⟩ := hhost
  have hnode : 0 ∉ h := fun hmem => hzero (by simp [hmem])
  have hrest : 0 ∉ rest.tail := fun hmem => hzero (by simp [List.mem_of_mem_tail hmem])
  have hdrop : (91 :: (h ++ 93 :: rest)).drop (h.length + 3) = rest.tail := by
    have hsplit : 91 :: (h ++ 93 :: rest) = (91 :: h ++ [93]) ++ rest := by simp
    have hlength : h.length + 3 = (91 :: h ++ [93]).length + 1 := by simp
    rw [hsplit, hlength, ← List.drop_drop, List.drop_left, List.drop_one]
  simp only [lookupArgs, splitHost, checkIpv6_of_bracket hh, if_neg hne, cStr_eq hnode]
  by_cases hcolon : rest.head? = some 58
  · rw [if_pos hcolon, if_pos hcolon, Option.map_some, hdrop, cStr_eq hrest]
  · rw [if_neg hcolon, if_neg hcolon, Option.map_none]

/-- Without brackets the second block decides. -/
theorem lookupArgs_of_unbracketed {host : Str} (h : Unbracketed host) :
    lookupArgs host = (cStr (if (checkNode host).1 = [] then host else (checkNode host).1),
      (checkNode host).2.map fun i => cStr (host.drop i)) := by
  simp only [lookupArgs, splitHost, if_pos (checkIpv6_of_unbracketed h)]

/-- One colon cuts the host. -/
theorem lookupArgs_of_one_colon {h s : Str} (hzero : 0 ∉ h ++ 58 :: s)
    (hbracket : Unbracketed (h ++ 58 :: s)) (hne : h ≠ []) (hh : 58 ∉ h) (hs : 58 ∉ s) :
    lookupArgs (h ++ 58 :: s) = (h, some s) := by
  have hnode : 0 ∉ h := fun hmem => hzero (by simp [hmem])
  have hservice : 0 ∉ s := fun hmem => hzero (by simp [hmem])
  have hdrop : (h ++ 58 :: s).drop (h.length + 1) = s := by
    rw [← List.drop_drop, List.drop_left]
    rfl
  rw [lookupArgs_of_unbracketed hbracket, checkNode_of_colon hh, if_neg hs]
  simp only [if_neg hne, cStr_eq hnode, Option.map_some, hdrop, cStr_eq hservice]

/-- Without a colon the whole host is the node. -/
theorem lookupArgs_of_no_colon {host : Str} (hzero : 0 ∉ host) (hbracket : Unbracketed host)
    (hcolon : 58 ∉ host) : lookupArgs host = (host, none) := by
  rw [lookupArgs_of_unbracketed hbracket, checkNode_of_not_mem hcolon]
  simp only [if_pos, cStr_eq hzero, Option.map_none]

/-- A bare IPv6 address is passed as the node, and with it what follows its first colon,
the colon included, as the service. -/
theorem lookupArgs_of_bareIPv6 {host : Str} (hzero : 0 ∉ host) (hbare : BareIPv6 host) :
    ∃ h s, host = h ++ 58 :: s ∧ lookupArgs host = (host, some (58 :: s)) := by
  obtain ⟨hcount, hopen, -⟩ := hbare
  have hbracket : Unbracketed host := by
    rintro h rest ⟨-, -, rfl⟩
    exact hopen List.mem_cons_self
  have hmem : 58 ∈ host := List.count_pos_iff.mp (by omega)
  obtain ⟨h, s, rfl, hh⟩ := List.eq_append_cons_of_mem hmem
  have hsecond : 58 ∈ s := by
    rw [List.count_append, List.count_cons_self, List.count_eq_zero_of_not_mem hh] at hcount
    exact List.count_pos_iff.mp (by omega)
  have hservice : 0 ∉ 58 :: s := fun hmem => hzero (List.mem_append_right _ hmem)
  refine ⟨h, s, rfl, ?_⟩
  rw [lookupArgs_of_unbracketed hbracket, checkNode_of_colon hh, if_pos hsecond]
  simp only [if_pos, cStr_eq hzero, Option.map_some, List.drop_left, cStr_eq hservice]

/-- **Which hosts are cut as written.**  For every host without an embedded NUL, what
`getaddrinfo` is given follows the grammar exactly when the host is not a bare IPv6
address. -/
theorem splits_iff (host : Str) (hzero : 0 ∉ host) : Splits host ↔ ¬ BareIPv6 host := by
  constructor
  · intro h hbare
    obtain ⟨node, s, -, hargs⟩ := lookupArgs_of_bareIPv6 hzero hbare
    have hnone := h.bare hbare
    rw [hargs] at hnone
    cases (Prod.mk.inj hnone).2
  · intro hbare
    refine ⟨fun h hhost => ?_, fun h s hhost => ?_, fun hbracket h s hne hh hs heq => ?_,
      fun hbracket hcolon => ?_, fun h => absurd h hbare⟩
    · exact lookupArgs_of_bracketed hzero hhost
    · exact lookupArgs_of_bracketed hzero hhost
    · subst heq
      exact lookupArgs_of_one_colon hzero hbracket hne hh hs
    · exact lookupArgs_of_no_colon hzero hbracket hcolon

/-- `a:80` is cut at its colon. -/
theorem host_with_port_splits : Splits [97, 58, 56, 48] :=
  (splits_iff [97, 58, 56, 48] (by decide)).mpr (by decide)

/-- For `::1` the service is `::1` as well. -/
theorem bare_address_has_service : ¬ ∀ host : Str, 0 ∉ host → Splits host := by
  intro hall
  have hnone := (hall [58, 58, 49] (by decide)).bare (by decide)
  have hargs : lookupArgs [58, 58, 49] = ([58, 58, 49], some [58, 58, 49]) := by decide
  rw [hargs] at hnone
  cases (Prod.mk.inj hnone).2

end Net

end Agent
