import Mathlib.Data.Nat.Digits.Lemmas

/-!
# Groups in hexadecimal

A list of numbers below `2 ^ 16` is written in hexadecimal with colons between the
groups.  One run of zero groups may be left out: `::` stands for as many of them as are
missing, at least one.  This is the text form of RFC 4291, for any number of groups.

`readGroups` is the grammar: it says which groups a text stands for, if any.
`readGroups_written` and `readGroups_gap` read back what was written.
-/

namespace GroupText

/-- A text is a list of bytes. -/
abbrev Text : Type := List UInt8

/-! ## Hexadecimal numbers -/

/-- A digit, in lower case. -/
def hexDigit (d : Nat) : UInt8 :=
  UInt8.ofNat (if d < 10 then 48 + d else 87 + d)

/-- The value of a digit of either case. -/
def hexValue (b : UInt8) : Option Nat :=
  if 48 ≤ b ∧ b ≤ 57 then some (b.toNat - 48)
  else if 65 ≤ b ∧ b ≤ 70 then some (b.toNat - 55)
  else if 97 ≤ b ∧ b ≤ 102 then some (b.toNat - 87)
  else none

/-- A number without leading zeros. -/
def hexNumeral (n : Nat) : Text :=
  if n = 0 then [48] else (Nat.digits 16 n).reverse.map hexDigit

/-- A group has one to four digits. -/
def readGroup (text : Text) : Option Nat :=
  if 1 ≤ text.length ∧ text.length ≤ 4 then
    (text.reverse.mapM hexValue).map (Nat.ofDigits 16)
  else none

/-- A digit is read as its value. -/
theorem hexValue_hexDigit {d : Nat} (hd : d < 16) : hexValue (hexDigit d) = some d := by
  interval_cases d <;> rfl

/-- No digit is a colon. -/
theorem hexDigit_ne_colon {d : Nat} (hd : d < 16) : hexDigit d ≠ 58 := by
  interval_cases d <;> decide

/-- All digits are read. -/
theorem mapM_hexValue {ds : List Nat} (hds : ∀ d ∈ ds, d < 16) :
    (ds.map hexDigit).mapM hexValue = some ds := by
  induction ds with
  | nil => rfl
  | cons d ds ih =>
      have hd : d < 16 := hds d List.mem_cons_self
      have hrest := ih fun e he => hds e (List.mem_cons_of_mem d he)
      simp [hexValue_hexDigit hd, hrest]

/-- A number below `2 ^ 16` is read back. -/
theorem readGroup_hexNumeral {n : Nat} (hn : n < 65536) : readGroup (hexNumeral n) = some n := by
  by_cases hzero : n = 0
  · subst hzero
    rfl
  · have hne : Nat.digits 16 n ≠ [] := Nat.digits_ne_nil_iff_ne_zero.mpr hzero
    have hlen : (Nat.digits 16 n).length ≤ 4 := (Nat.digits_length_le_iff (by decide) n).mpr hn
    have hpos : 1 ≤ (Nat.digits 16 n).length := List.length_pos_iff.mpr hne
    have hdigits : ∀ d ∈ Nat.digits 16 n, d < 16 := fun d hd => Nat.digits_lt_base (by decide) hd
    have hreverse : ((Nat.digits 16 n).reverse.map hexDigit).reverse =
        (Nat.digits 16 n).map hexDigit := by
      rw [← List.map_reverse, List.reverse_reverse]
    rw [hexNumeral, if_neg hzero, readGroup, hreverse, mapM_hexValue hdigits,
      if_pos (by simpa using And.intro hpos hlen), Option.map_some, Nat.ofDigits_digits]

/-- A number has nothing but digits. -/
theorem not_mem_hexNumeral {b : UInt8} (hb : ∀ d < 16, hexDigit d ≠ b) (n : Nat) :
    b ∉ hexNumeral n := by
  unfold hexNumeral
  split
  · intro hmem
    exact hb 0 (by decide) (List.mem_singleton.mp hmem).symm
  · intro hmem
    obtain ⟨d, hd, heq⟩ := List.mem_map.mp hmem
    exact hb d (Nat.digits_lt_base (by decide) (List.mem_reverse.mp hd)) heq

/-- No numeral has a colon. -/
theorem colon_not_mem_hexNumeral (n : Nat) : (58 : UInt8) ∉ hexNumeral n :=
  not_mem_hexNumeral (fun _ hd => hexDigit_ne_colon hd) n

/-- A numeral has a digit. -/
theorem hexNumeral_ne_nil (n : Nat) : hexNumeral n ≠ [] := by
  unfold hexNumeral
  split
  · exact List.cons_ne_nil _ _
  · rename_i hzero
    have hne : Nat.digits 16 n ≠ [] := Nat.digits_ne_nil_iff_ne_zero.mpr hzero
    simpa using hne

/-! ## The grammar -/

/-- The groups with a colon between any two. -/
def written (gs : List Nat) : Text :=
  [(58 : UInt8)].intercalate (gs.map hexNumeral)

/-- The text before the first `::` and the text after it. -/
def cutGap : Text → Option (Text × Text)
  | [] => none
  | b :: rest =>
      if b = 58 ∧ rest.head? = some 58 then some ([], rest.tail)
      else (cutGap rest).map fun r => (b :: r.1, r.2)

/-- The groups of a text without `::`; an empty text has none. -/
def readFields (text : Text) : Option (List Nat) :=
  if text = [] then some [] else (text.splitOn 58).mapM readGroup

/-- The `count` groups that a text stands for. -/
def readGroups (count : Nat) (text : Text) : Option (List Nat) :=
  match cutGap text with
  | none => (readFields text).bind fun gs => if gs.length = count then some gs else none
  | some (left, right) =>
      (readFields left).bind fun ls =>
        (readFields right).bind fun rs =>
          if ls.length + rs.length < count then
            some (ls ++ List.replicate (count - (ls.length + rs.length)) 0 ++ rs)
          else none

/-- Two groups have a colon between them. -/
theorem written_cons_cons (g g' : Nat) (gs : List Nat) :
    written (g :: g' :: gs) = hexNumeral g ++ 58 :: written (g' :: gs) := by
  simp [written]

theorem written_singleton (g : Nat) : written [g] = hexNumeral g := by
  simp [written]

/-- Nothing is written but digits and colons. -/
theorem not_mem_written {b : UInt8} (hb : ∀ d < 16, hexDigit d ≠ b) (hcolon : b ≠ 58)
    (gs : List Nat) : b ∉ written gs := by
  induction gs with
  | nil => simp [written]
  | cons g gs ih =>
      have hg := not_mem_hexNumeral hb g
      cases gs with
      | nil => rwa [written_singleton]
      | cons g' gs =>
          rw [written_cons_cons, List.mem_append, List.mem_cons, not_or, not_or]
          exact ⟨hg, hcolon, ih⟩

/-- A last group comes behind a colon. -/
theorem written_concat {gs : List Nat} (hgs : gs ≠ []) (g : Nat) :
    written (gs ++ [g]) = written gs ++ 58 :: hexNumeral g := by
  induction gs with
  | nil => exact absurd rfl hgs
  | cons g' gs ih =>
      cases gs with
      | nil => rw [List.singleton_append, written_cons_cons, written_singleton, written_singleton]
      | cons g'' gs =>
          have ih := ih (List.cons_ne_nil g'' gs)
          rw [List.cons_append] at ih
          rw [List.cons_append, List.cons_append, written_cons_cons, ih, written_cons_cons,
            List.append_assoc, List.cons_append]

/-- What is written starts with a digit. -/
theorem written_cons_head (g : Nat) (gs : List Nat) :
    ∃ b rest, written (g :: gs) = b :: rest ∧ b ≠ 58 := by
  have hne := hexNumeral_ne_nil g
  have hcolon := colon_not_mem_hexNumeral g
  cases hg : hexNumeral g with
  | nil => exact absurd hg hne
  | cons b digits =>
      rw [hg] at hcolon
      have hb : b ≠ 58 := fun heq => hcolon (heq ▸ List.mem_cons_self)
      cases gs with
      | nil => exact ⟨b, digits, by rw [written_singleton, hg], hb⟩
      | cons g' gs =>
          exact ⟨b, digits ++ 58 :: written (g' :: gs), by rw [written_cons_cons, hg]; rfl, hb⟩

/-- All groups are read. -/
theorem mapM_readGroup {gs : List Nat} (hgs : ∀ g ∈ gs, g < 65536) :
    (gs.map hexNumeral).mapM readGroup = some gs := by
  induction gs with
  | nil => rfl
  | cons g gs ih =>
      have hg : g < 65536 := hgs g List.mem_cons_self
      have hrest := ih fun e he => hgs e (List.mem_cons_of_mem g he)
      simp [readGroup_hexNumeral hg, hrest]

/-- Groups are read as they were written. -/
theorem readFields_written {gs : List Nat} (hgs : ∀ g ∈ gs, g < 65536) :
    readFields (written gs) = some gs := by
  cases gs with
  | nil => rfl
  | cons g gs =>
      obtain ⟨b, rest, hwritten, -⟩ := written_cons_head g gs
      have hfields : (written (g :: gs)).splitOn 58 = (g :: gs).map hexNumeral := by
        refine List.splitOn_intercalate 58 (fun field hfield => ?_) (by simp)
        obtain ⟨e, -, rfl⟩ := List.mem_map.mp hfield
        exact colon_not_mem_hexNumeral e
      rw [readFields, if_neg (by simp [hwritten]), hfields, mapM_readGroup hgs]

/-! ## The gap -/

/-- A text without a colon does not hide a gap that comes after it. -/
theorem cutGap_append {xs : Text} (h : (58 : UInt8) ∉ xs) (text : Text) :
    cutGap (xs ++ text) = (cutGap text).map fun r => (xs ++ r.1, r.2) := by
  induction xs with
  | nil => simp
  | cons b xs ih =>
      simp only [List.mem_cons, not_or] at h
      obtain ⟨hb, hxs⟩ := h
      rw [List.cons_append, cutGap, if_neg fun hboth => hb hboth.1.symm, ih hxs, Option.map_map]
      rfl

/-- A single colon is no gap. -/
theorem cutGap_colon {b : UInt8} (hb : b ≠ 58) (rest : Text) :
    cutGap (58 :: b :: rest) = (cutGap (b :: rest)).map fun r => (58 :: r.1, r.2) := by
  rw [cutGap, if_neg fun hboth => hb (Option.some.inj hboth.2)]

/-- Groups with single colons between them have no gap. -/
theorem cutGap_written (gs : List Nat) : cutGap (written gs) = none := by
  induction gs with
  | nil => rfl
  | cons g gs ih =>
      cases gs with
      | nil =>
          have hcut := cutGap_append (colon_not_mem_hexNumeral g) []
          rw [List.append_nil] at hcut
          rw [written_singleton, hcut]
          rfl
      | cons g' gs =>
          obtain ⟨b, rest, hwritten, hb⟩ := written_cons_head g' gs
          rw [written_cons_cons, cutGap_append (colon_not_mem_hexNumeral g), hwritten,
            cutGap_colon hb, ← hwritten, ih]
          rfl

/-- The first gap of a text is the one that was written. -/
theorem cutGap_written_gap (ls : List Nat) (right : Text) :
    cutGap (written ls ++ 58 :: 58 :: right) = some (written ls, right) := by
  induction ls with
  | nil => rfl
  | cons g ls ih =>
      cases ls with
      | nil =>
          rw [written_singleton, cutGap_append (colon_not_mem_hexNumeral g)]
          simp [cutGap]
      | cons g' ls =>
          obtain ⟨b, rest, hwritten, hb⟩ := written_cons_head g' ls
          rw [hwritten, List.cons_append] at ih
          rw [written_cons_cons, List.append_assoc,
            cutGap_append (colon_not_mem_hexNumeral g), hwritten, List.cons_append,
            List.cons_append, cutGap_colon hb, ih]
          rfl

/-! ## Reading back -/

/-- **All groups written out.** -/
theorem readGroups_written {gs : List Nat} (hgs : ∀ g ∈ gs, g < 65536) :
    readGroups gs.length (written gs) = some gs := by
  rw [readGroups, cutGap_written]
  simp only [readFields_written hgs, Option.bind_some, if_pos]

/-- **A run of zero groups left out.** -/
theorem readGroups_gap {ls rs : List Nat} {k : Nat} (hk : 0 < k) (hls : ∀ g ∈ ls, g < 65536)
    (hrs : ∀ g ∈ rs, g < 65536) :
    readGroups (ls.length + k + rs.length) (written ls ++ 58 :: 58 :: written rs) =
      some (ls ++ List.replicate k 0 ++ rs) := by
  have hlt : ls.length + rs.length < ls.length + k + rs.length := by omega
  have hmissing : ls.length + k + rs.length - (ls.length + rs.length) = k := by omega
  rw [readGroups, cutGap_written_gap]
  simp only [readFields_written hls, readFields_written hrs, Option.bind_some, if_pos hlt,
    hmissing]

end GroupText
