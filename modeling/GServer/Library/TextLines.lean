import Mathlib.Data.List.Basic

/-!
# Text in lines

Texts are lists of bytes.  A reader cuts a text at the first occurrence of a separator
or at the first line end, and takes lines up to the first empty one; what it cuts off
is what was written there, as long as the separator does not occur in it.  Numbers are
written in decimal and read back.
-/

namespace TextLines

abbrev Text : Type := List UInt8

/-! ## Cutting -/

/-- The text before the first `sep` and the text after it. -/
def cutAt (sep : UInt8) : Text → Option (Text × Text)
  | [] => none
  | b :: rest =>
      if b = sep then some ([], rest)
      else (cutAt sep rest).map fun r => (b :: r.1, r.2)

/-- The first separator cuts. -/
theorem cutAt_append {sep : UInt8} {xs : Text} (h : sep ∉ xs) (ys : Text) :
    cutAt sep (xs ++ sep :: ys) = some (xs, ys) := by
  induction xs with
  | nil => simp [cutAt]
  | cons b xs ih =>
      simp only [List.mem_cons, not_or] at h
      obtain ⟨hb, hxs⟩ := h
      rw [List.cons_append, cutAt, if_neg (Ne.symm hb), ih hxs, Option.map_some]

/-- The text before the last `sep` and the text after it. -/
def cutAtLast (sep : UInt8) (text : Text) : Option (Text × Text) :=
  (cutAt sep text.reverse).map fun r => (r.2.reverse, r.1.reverse)

/-- The last separator cuts. -/
theorem cutAtLast_append {sep : UInt8} {ys : Text} (h : sep ∉ ys) (xs : Text) :
    cutAtLast sep (xs ++ sep :: ys) = some (xs, ys) := by
  have hreverse : (xs ++ sep :: ys).reverse = ys.reverse ++ sep :: xs.reverse := by simp
  rw [cutAtLast, hreverse, cutAt_append (by simpa using h)]
  simp

/-! ## Lines -/

/-- The end of a line. -/
def crlf : Text := [13, 10]

/-- The text has no byte that is part of a line end. -/
def OneLine (text : Text) : Prop :=
  13 ∉ text ∧ 10 ∉ text

instance (text : Text) : Decidable (OneLine text) :=
  inferInstanceAs (Decidable (_ ∧ _))

/-- Two parts of a line make one. -/
theorem OneLine.append {xs ys : Text} (hx : OneLine xs) (hy : OneLine ys) :
    OneLine (xs ++ ys) := by
  simp only [OneLine, List.mem_append, not_or]
  exact ⟨⟨hx.1, hy.1⟩, hx.2, hy.2⟩

/-- Two parts with a separator between them. -/
theorem OneLine.joined {xs ys : Text} {sep : UInt8} (hx : OneLine xs) (hsep : OneLine [sep])
    (hy : OneLine ys) : OneLine (xs ++ [sep] ++ ys) :=
  (hx.append hsep).append hy

/-- The first line and what follows its end. -/
def cutLine : Text → Option (Text × Text)
  | [] => none
  | [_] => none
  | a :: b :: rest =>
      if a = 13 ∧ b = 10 then some ([], rest)
      else (cutLine (b :: rest)).map fun r => (a :: r.1, r.2)

/-- A line is cut at its end. -/
theorem cutLine_append {line : Text} (h : OneLine line) (rest : Text) :
    cutLine (line ++ crlf ++ rest) = some (line, rest) := by
  induction line with
  | nil => rfl
  | cons a line ih =>
      simp only [OneLine, List.mem_cons, not_or] at h
      obtain ⟨⟨ha, hcr⟩, -, hlf⟩ := h
      have ih := ih ⟨hcr, hlf⟩
      have hne : ∀ b : UInt8, ¬ (a = 13 ∧ b = 10) := fun b heq => ha heq.1.symm
      cases line with
      | nil =>
          change cutLine (a :: 13 :: 10 :: rest) = _
          change cutLine (13 :: 10 :: rest) = _ at ih
          rw [cutLine, if_neg (hne _), ih, Option.map_some]
      | cons b line =>
          change cutLine (a :: b :: (line ++ crlf ++ rest)) = _
          change cutLine (b :: (line ++ crlf ++ rest)) = _ at ih
          rw [cutLine, if_neg (hne _), ih, Option.map_some]

/-- The lines before the first empty line, and what follows that one; at most `fuel`
lines are read. -/
def readLines : Nat → Text → Option (List Text × Text)
  | 0, _ => none
  | fuel + 1, text =>
      match cutLine text with
      | none => none
      | some ([], rest) => some ([], rest)
      | some (b :: line, rest) =>
          (readLines fuel rest).map fun r => ((b :: line) :: r.1, r.2)

/-- Lines with their ends. -/
def writeLines (lines : List Text) : Text :=
  lines.flatMap fun line => line ++ crlf

/-- **Lines are read back.**  Nonempty lines and an empty one after them are read as
what was written, and what follows is left. -/
theorem readLines_writeLines {lines : List Text}
    (h : ∀ line ∈ lines, line ≠ [] ∧ OneLine line) (rest : Text) {fuel : Nat}
    (hfuel : lines.length < fuel) :
    readLines fuel (writeLines lines ++ crlf ++ rest) = some (lines, rest) := by
  induction lines generalizing fuel with
  | nil =>
      obtain ⟨fuel, rfl⟩ := Nat.exists_eq_add_of_lt hfuel
      have hnil : OneLine [] := by decide
      have hcut := cutLine_append hnil rest
      change cutLine (crlf ++ rest) = _ at hcut
      simp only [readLines, writeLines, List.flatMap_nil, List.nil_append, hcut]
  | cons line lines ih =>
      obtain ⟨hne, hone⟩ := h line List.mem_cons_self
      cases fuel with
      | zero => exact absurd hfuel (Nat.not_lt_zero _)
      | succ fuel =>
          have hrest := ih (fun l hl => h l (List.mem_cons_of_mem _ hl)) (by simpa using hfuel)
          have htext : writeLines (line :: lines) ++ crlf ++ rest =
              line ++ crlf ++ (writeLines lines ++ crlf ++ rest) := by
            simp [writeLines]
          rw [htext, readLines, cutLine_append hone]
          cases line with
          | nil => exact absurd rfl hne
          | cons b line => simp only [hrest, Option.map_some]

/-! ## Blanks -/

/-- A space or a tab. -/
def isBlank (b : UInt8) : Bool :=
  b == 32 || b == 9

/-- The text without the blanks around it. -/
def trim (text : Text) : Text :=
  ((text.dropWhile isBlank).reverse.dropWhile isBlank).reverse

/-- A leading blank is trimmed. -/
theorem trim_cons_blank (text : Text) : trim (32 :: text) = trim text := by
  rw [trim, List.dropWhile_cons_of_pos (by rfl)]
  rfl

/-- A text without blanks is left as it is. -/
theorem trim_of_no_blank {text : Text} (h : ∀ b ∈ text, isBlank b = false) :
    trim text = text := by
  have hdrop : ∀ xs : Text, (∀ b ∈ xs, isBlank b = false) → xs.dropWhile isBlank = xs := by
    intro xs hxs
    cases xs with
    | nil => rfl
    | cons b xs => rw [List.dropWhile_cons_of_neg (by simp [hxs b List.mem_cons_self])]
  rw [trim, hdrop text h, hdrop _ (by simpa using h), List.reverse_reverse]

/-! ## Numbers -/

/-- The digits of `n` before `acc`. -/
def digitsBefore : Nat → Nat → Text → Text
  | 0, _, acc => acc
  | fuel + 1, n, acc =>
      let acc := UInt8.ofNat (48 + n % 10) :: acc
      if n < 10 then acc else digitsBefore fuel (n / 10) acc

/-- The digits of a number. -/
def numeral (n : Nat) : Text :=
  digitsBefore (n + 1) n []

def isDigit (b : UInt8) : Bool :=
  48 ≤ b && b ≤ 57

/-- Another digit of a number. -/
def addDigit (n : Nat) (b : UInt8) : Nat :=
  n * 10 + (b.toNat - 48)

/-- A numeral number. -/
def readNumeral (text : Text) : Option Nat :=
  if text ≠ [] ∧ text.all isDigit then some (text.foldl addDigit 0) else none

/-- A digit is its character's number. -/
theorem toNat_digit (n : Nat) : (UInt8.ofNat (48 + n % 10)).toNat = 48 + n % 10 := by
  have hlt : n % 10 < 10 := Nat.mod_lt _ (by decide)
  rw [UInt8.toNat_ofNat']
  omega

/-- A digit is one. -/
theorem isDigit_digit (n : Nat) : isDigit (UInt8.ofNat (48 + n % 10)) = true := by
  have hlt : n % 10 < 10 := Nat.mod_lt _ (by decide)
  have htoNat := toNat_digit n
  simp only [isDigit, Bool.and_eq_true, decide_eq_true_eq, UInt8.le_iff_toNat_le, htoNat]
  refine ⟨?_, ?_⟩
  · change 48 ≤ 48 + n % 10
    omega
  · change 48 + n % 10 ≤ 57
    omega

/-- A digit is added to a number. -/
theorem addDigit_digit (n : Nat) (m : Nat) :
    addDigit m (UInt8.ofNat (48 + n % 10)) = m * 10 + n % 10 := by
  rw [addDigit, toNat_digit]
  omega

/-- Reading the digits of `n` and then `acc` is reading `acc` after `n`. -/
theorem foldl_digitsBefore (fuel n : Nat) (acc : Text) (h : n < fuel) :
    (digitsBefore fuel n acc).foldl addDigit 0 = acc.foldl addDigit n := by
  induction fuel generalizing n acc with
  | zero => exact absurd h (Nat.not_lt_zero _)
  | succ fuel ih =>
      rw [digitsBefore]
      split
      · rename_i hten
        rw [List.foldl_cons, addDigit_digit, Nat.zero_mul, Nat.zero_add, Nat.mod_eq_of_lt hten]
      · rw [ih (n / 10) _ (by omega), List.foldl_cons, addDigit_digit]
        congr 1
        omega

/-- The digits in front are digits. -/
theorem isDigit_digitsBefore (fuel n : Nat) {acc : Text} (h : ∀ b ∈ acc, isDigit b = true) :
    ∀ b ∈ digitsBefore fuel n acc, isDigit b = true := by
  induction fuel generalizing n acc with
  | zero => exact h
  | succ fuel ih =>
      have hcons : ∀ b ∈ UInt8.ofNat (48 + n % 10) :: acc, isDigit b = true := by
        intro b hb
        rcases List.mem_cons.mp hb with rfl | hb
        · exact isDigit_digit n
        · exact h b hb
      rw [digitsBefore]
      split
      · exact hcons
      · exact ih (n / 10) hcons

/-- A numeral has digits only. -/
theorem isDigit_numeral (n : Nat) : ∀ b ∈ numeral n, isDigit b = true :=
  isDigit_digitsBefore _ _ nofun

/-- With fuel some digit is written. -/
theorem digitsBefore_ne_nil (fuel n : Nat) {acc : Text} (h : 0 < fuel ∨ acc ≠ []) :
    digitsBefore fuel n acc ≠ [] := by
  induction fuel generalizing n acc with
  | zero => exact h.resolve_left (Nat.lt_irrefl 0)
  | succ fuel ih =>
      rw [digitsBefore]
      split
      · exact List.cons_ne_nil _ _
      · exact ih (n / 10) (Or.inr (List.cons_ne_nil _ _))

/-- **Numbers are read back.** -/
theorem readNumeral_numeral (n : Nat) : readNumeral (numeral n) = some n := by
  have hne : numeral n ≠ [] := digitsBefore_ne_nil _ _ (Or.inl (Nat.succ_pos n))
  have hall : (numeral n).all isDigit = true := List.all_eq_true.mpr (isDigit_numeral n)
  rw [readNumeral, if_pos ⟨hne, hall⟩, numeral, foldl_digitsBefore _ _ _ (Nat.lt_succ_self n)]
  rfl

/-- What is no digit does not occur in a number. -/
theorem not_mem_numeral {b : UInt8} (hb : isDigit b = false) (n : Nat) : b ∉ numeral n := by
  intro hmem
  rw [isDigit_numeral n b hmem] at hb
  cases hb

end TextLines
