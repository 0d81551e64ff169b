import GServer.LogPattern

/-!
# The scanner over the rest of a pattern

`scan` reads the rest of a pattern where `init` works with positions, and gives at once
what is printed.  `view_init` says that they agree for patterns whose positions fit into
an `int`.  The one difference that is left is in the parameter `full`: a brace that is
never closed takes `m` two places behind the last byte, which for 2147483647 bytes is
behind the greatest `int`.
-/

namespace Agent

open Http (Str)

namespace LogPattern

/-! ## The list scanner -/

/-- The format behind `{`, and what follows it. -/
def readFmt (full : Bool) (symbol : Str) : Str → Str → Option (Str × Str × Str)
  | _, [] => if full then none else some (symbol, [], [])
  | fmt, c :: rest =>
      if c = 125 then some (symbol, fmt, rest) else readFmt full symbol (fmt ++ [c]) rest

/-- The symbol and the format behind `%`, and what follows them. -/
def readSymbol (full : Bool) : Str → Str → Option (Str × Str × Str)
  | symbol, [] => some (symbol, [], [])
  | symbol, c :: rest =>
      if c = 123 then readFmt full symbol [] rest
      else if c = 125 ∨ isalnum c = true then readSymbol full (symbol ++ [c]) rest
      else some (symbol, [], c :: rest)

/-- Reading a format leaves no more than there was. -/
theorem length_readFmt {full : Bool} {symbol : Str} (rest : Str) {fmt : Str} {r : Str × Str × Str}
    (h : readFmt full symbol fmt rest = some r) : r.2.2.length ≤ rest.length := by
  induction rest generalizing fmt with
  | nil =>
      rw [readFmt] at h
      obtain ⟨-, h⟩ := Option.ite_none_left_eq_some.mp h
      obtain rfl := Option.some.inj h
      exact Nat.le_refl 0
  | cons c rest ih =>
      rw [readFmt] at h
      by_cases hc : c = 125
      · rw [if_pos hc] at h
        rw [← Option.some.inj h]
        exact Nat.le_succ _
      · rw [if_neg hc] at h
        exact Nat.le_succ_of_le (ih h)

/-- Reading a symbol leaves no more than there was. -/
theorem length_readSymbol {full : Bool} (rest : Str) {symbol : Str} {r : Str × Str × Str}
    (h : readSymbol full symbol rest = some r) : r.2.2.length ≤ rest.length := by
  induction rest generalizing symbol with
  | nil =>
      rw [readSymbol] at h
      obtain rfl := Option.some.inj h
      exact Nat.le_refl 0
  | cons c rest ih =>
      rw [readSymbol] at h
      by_cases hopen : c = 123
      · rw [if_pos hopen] at h
        exact Nat.le_succ_of_le (length_readFmt rest h)
      · rw [if_neg hopen] at h
        by_cases htaken : c = 125 ∨ isalnum c = true
        · rw [if_pos htaken] at h
          exact Nat.le_succ_of_le (ih h)
        · rw [if_neg htaken] at h
          obtain rfl := Option.some.inj h
          exact Nat.le_refl _

/-- What entries print, and whether they set `m_error`. -/
def view (vec : List Entry) : List Printed × Bool :=
  (vec.flatMap fun e => e.item.print, vec.any Entry.isError)

/-- One after the other. -/
def join (a b : List Printed × Bool) : List Printed × Bool :=
  (a.1 ++ b.1, a.2 || b.2)

/-- Two lists of entries print one after the other. -/
theorem view_append (vec vec' : List Entry) : view (vec ++ vec') = join (view vec) (view vec') := by
  simp [view, join]

/-- Joining is associative. -/
theorem join_assoc (a b c : List Printed × Bool) : join (join a b) c = join a (join b c) := by
  simp [join, Bool.or_assoc]

/-- What the rest of a pattern prints behind the literal `nstr`. -/
def scan (full : Bool) (nstr : Str) : Str → Option (List Printed × Bool)
  | [] => some (view [])
  | c :: rest =>
      if c ≠ 37 then scan full (nstr ++ [c]) rest
      else if rest.head? = some 37 then scan full (nstr ++ [37]) rest
      else
        match _h : readSymbol full [] rest with
        | none => none
        | some r =>
            (scan full [] r.2.2).map
              (join (view (literalEntry nstr ++ directiveEntry r.1 r.2.1)))
termination_by text => text.length
decreasing_by
  · exact Nat.lt_succ_self _
  · exact Nat.lt_succ_self _
  · exact Nat.lt_succ_of_le (length_readSymbol rest _h)

/-- At the end the text is printed. -/
theorem scan_nil (full : Bool) (nstr : Str) : scan full nstr [] = some (view []) := by
  rw [scan]

/-- A character goes into the text. -/
theorem scan_lit (full : Bool) (nstr : Str) {c : UInt8} (hc : c ≠ 37) (rest : Str) :
    scan full nstr (c :: rest) = scan full (nstr ++ [c]) rest := by
  rw [scan, if_pos hc]

/-- Two percent signs leave the second to be read again. -/
theorem scan_esc (full : Bool) (nstr rest : Str) :
    scan full nstr (37 :: 37 :: rest) = scan full (nstr ++ [37]) (37 :: rest) := by
  rw [scan, if_neg (by simp), if_pos List.head?_cons]

/-- A directive prints the text before it, then itself. -/
theorem scan_dir (full : Bool) (nstr : Str) {rest : Str} (hrest : rest.head? ≠ some 37) :
    scan full nstr (37 :: rest) = (readSymbol full [] rest).bind fun r =>
      (scan full [] r.2.2).map (join (view (literalEntry nstr ++ directiveEntry r.1 r.2.1))) := by
  rw [scan, if_neg (by simp), if_neg hrest]
  split
  · rename_i hread
    rw [hread, Option.bind_none]
  · rename_i r hread
    rw [hread, Option.bind_some]

/-! ## Positions -/

/-- A pattern that an `int` can index. -/
def Short (m_pattern : Str) : Prop :=
  m_pattern.length ≤ 2147483647

instance (m_pattern : Str) : Decidable (Short m_pattern) :=
  inferInstanceAs (Decidable (_ ≤ _))

/-- The terminator is at the greatest `int`. -/
def isFull (m_pattern : Str) : Bool :=
  m_pattern.length = 2147483647

/-- A small length is itself as an `int`. -/
theorem toInt_of_le {n : Nat} (h : n ≤ 2147483647) : toInt n = n := by
  unfold toInt
  rw [Int.bmod_def]
  omega

/-- A small length is itself as a `size_t`. -/
theorem toSize_natCast {n : Nat} (h : n ≤ 2147483648) : toSize n = n := by
  unfold toSize
  omega

/-- A part of a pattern is cut out. -/
theorem substr_append {front mid rest : Str} {pos count : Int}
    (hshort : front.length + mid.length ≤ 2147483647) (hpos : pos = front.length)
    (hcount : count = mid.length) : substr (front ++ mid ++ rest) pos count = some mid := by
  have hfront : toSize pos = front.length := by
    rw [hpos]
    exact toSize_natCast (by omega)
  have hmid : toSize count = mid.length := by
    rw [hcount]
    exact toSize_natCast (by omega)
  have hle : ¬ (front ++ mid ++ rest).length < front.length := by
    simp
  rw [substr, hfront, hmid, if_neg hle, List.append_assoc, List.drop_left, List.take_left]

/-- Behind the last character stands a zero. -/
theorem charAt_end (s : Str) : charAt s s.length = some 0 := by
  rw [charAt, if_pos (Int.natCast_nonneg _), Int.toNat_natCast,
    List.getElem?_append_right (Nat.le_refl _), Nat.sub_self]
  rfl

/-- The character after a prefix. -/
theorem charAt_append {s front rest : Str} {m : Int} {c : UInt8} (hs : s = front ++ c :: rest)
    (hm : m = front.length) : charAt s m = some c := by
  have hsplit : front ++ c :: rest ++ [0] = front ++ (c :: (rest ++ [0])) := by simp
  rw [charAt, hs, hm, if_pos (Int.natCast_nonneg _), Int.toNat_natCast, hsplit,
    List.getElem?_append_right (Nat.le_refl _), Nat.sub_self]
  rfl

/-- What is left of the string at a position. -/
theorem drop_toSize {s front rest : Str} {m : Int} (hs : s = front ++ rest)
    (hm : m = front.length) (hshort : front.length ≤ 2147483648) : s.drop (toSize m) = rest := by
  rw [hm, toSize_natCast hshort, hs, List.drop_left]

/-- An index below the greatest `int` is counted up. -/
theorem increment_of_lt {m : Int} (h : m < 2147483647) : increment m = some (m + 1) := by
  rw [increment, if_neg (by omega)]

/-! ## The inner loop -/

variable {m_pattern : Str} {i : Nat} {n m : Int} {c : UInt8}

/-- A turn between the braces. -/
theorem readDirective_inside (hm : m ≤ n) (hc : charAt m_pattern m = some c) (symbol : Str)
    (fmt_begin : Int) :
    readDirective m_pattern i n m ⟨symbol, [], true, fmt_begin⟩ =
      (increment m).bind fun next =>
        if c = 125 then (substr m_pattern fmt_begin (m - fmt_begin)).map fun fmt =>
          (next, ⟨symbol, fmt, false, 0⟩)
        else readDirective m_pattern i n (m + 1) ⟨symbol, [], true, fmt_begin⟩ := by
  rw [readDirective, dif_pos hm, hc]
  cases increment m with
  | none => simp [openBrace]
  | some next => simp [openBrace]

/-- A turn that ends the symbol. -/
theorem readDirective_stop (hm : m ≤ n) (hc : charAt m_pattern m = some c)
    (hstop : c ≠ 123 ∧ c ≠ 125 ∧ isalnum c = false) :
    readDirective m_pattern i n m ⟨[], [], false, 0⟩ =
      (substr m_pattern (i + 1) (m - i - 1)).map fun symbol => (m, ⟨symbol, [], false, 0⟩) := by
  rw [readDirective, dif_pos hm, hc]
  simp [hstop.1, hstop.2.1, hstop.2.2]

/-- A turn that opens the braces. -/
theorem readDirective_open (hm : m ≤ n) (hc : charAt m_pattern m = some 123)
    (hnext : m < 2147483647) :
    readDirective m_pattern i n m ⟨[], [], false, 0⟩ =
      (substr m_pattern (i + 1) (m - i - 1)).bind fun symbol =>
        readDirective m_pattern i n (m + 1) ⟨symbol, [], true, m + 1⟩ := by
  rw [readDirective, dif_pos hm, hc]
  cases hsub : substr m_pattern (i + 1) (m - i - 1) with
  | none => simp [openBrace, hsub]
  | some symbol => simp [openBrace, hsub, increment_of_lt hnext]

/-- A turn that adds to the symbol. -/
theorem readDirective_take (hm : m ≤ n) (hc : charAt m_pattern m = some c) (hopen : c ≠ 123)
    (htaken : c = 125 ∨ isalnum c = true) (hnext : m < 2147483647) :
    readDirective m_pattern i n m ⟨[], [], false, 0⟩ =
      readDirective m_pattern i n (m + 1) ⟨[], [], false, 0⟩ := by
  have hstop : ¬ ((c ≠ 123 ∧ c ≠ 125 ∧ isalnum c = false) ∧ false = false) := by
    rintro ⟨⟨-, hclose, halnum⟩, -⟩
    rcases htaken with heq | htrue
    · exact hclose heq
    · rw [halnum] at htrue
      cases htrue
  rw [readDirective, dif_pos hm, hc]
  dsimp only
  rw [if_neg hstop]
  simp [openBrace, hopen, increment_of_lt hnext]

/-- Where the loop ends, and what is left of the pattern. -/
def leave (m_pattern : Str) (r : Int × Scan) : Str × Str × Str :=
  (r.2.symbol, r.2.fmt, m_pattern.drop (toSize r.1))

/-- The loop inside the braces reads the format. -/
theorem readDirective_fmt (hshort : Short m_pattern) (i : Nat) (symbol front : Str) :
    ∀ (rest fmt : Str) (m : Int), m_pattern = front ++ fmt ++ rest →
      m = front.length + fmt.length →
      (readDirective m_pattern i m_pattern.length m ⟨symbol, [], true, front.length⟩).map
        (leave m_pattern) = readFmt (isFull m_pattern) symbol fmt rest := by
  have hshort : m_pattern.length ≤ 2147483647 := hshort
  intro rest
  induction rest with
  | nil =>
      intro fmt m hP hm
      have hend : m = m_pattern.length := by
        rw [hP, hm]
        simp
      have hchar : charAt m_pattern m = some 0 := by
        rw [hend]
        exact charAt_end m_pattern
      rw [readDirective_inside (by omega) hchar, readFmt]
      cases hfull : isFull m_pattern with
      | true =>
          have hgreatest : m = 2147483647 := by
            have hlen : m_pattern.length = 2147483647 := of_decide_eq_true hfull
            omega
          rw [increment, if_pos hgreatest]
          rfl
      | false =>
          have hlen : m_pattern.length ≠ 2147483647 := of_decide_eq_false hfull
          have hover : ¬ m + 1 ≤ m_pattern.length := by omega
          have hsize : toSize (m + 1) = m_pattern.length + 1 := by
            have hcast : m + 1 = ((m_pattern.length + 1 : Nat) : Int) := by
              rw [hend]
              rfl
            rw [hcast]
            exact toSize_natCast (by omega)
          rw [increment_of_lt (by omega), Option.bind_some, if_neg (by decide), readDirective,
            dif_neg hover, Option.map_some, leave, hsize, List.drop_eq_nil_of_le (by omega)]
          rfl
  | cons c rest ih =>
      intro fmt m hP hm
      have hsplit : m_pattern = front ++ fmt ++ c :: rest := hP
      have hlen : m_pattern.length = front.length + fmt.length + rest.length + 1 := by
        rw [hP]
        simp
        omega
      have hchar : charAt m_pattern m = some c := charAt_append hsplit (by rw [hm]; simp)
      rw [readDirective_inside (by omega) hchar, increment_of_lt (by omega), Option.bind_some,
        readFmt]
      by_cases hc : c = 125
      · have hfmt : substr m_pattern front.length (m - front.length) = some fmt := by
          rw [hsplit]
          exact substr_append (by omega) rfl (by omega)
        have hlast : m_pattern = front ++ fmt ++ [c] ++ rest := by
          rw [hsplit]
          simp
        have hdrop : m_pattern.drop (toSize (m + 1)) = rest :=
          drop_toSize hlast (by rw [hm]; simp; omega) (by simp; omega)
        rw [if_pos hc, if_pos hc, hfmt, Option.map_some, Option.map_some, leave, hdrop]
      · rw [if_neg hc, if_neg hc]
        exact ih (fmt ++ [c]) (m + 1) (by rw [hsplit]; simp) (by rw [hm]; simp; omega)

/-- The inner loop reads a symbol and a format. -/
theorem readDirective_eq (hshort : Short m_pattern) {front : Str} :
    ∀ (rest sym : Str) (m : Int), m_pattern = front ++ sym ++ rest →
      m = front.length + sym.length → front.length = i + 1 →
      (readDirective m_pattern i m_pattern.length m ⟨[], [], false, 0⟩).map (leave m_pattern) =
        readSymbol (isFull m_pattern) sym rest := by
  have hshort' : m_pattern.length ≤ 2147483647 := hshort
  intro rest
  induction rest with
  | nil =>
      intro sym m hP hm hi
      have hlen : m_pattern.length = front.length + sym.length := by
        rw [hP]
        simp
      have hchar : charAt m_pattern m = some 0 := by
        have hend : m = m_pattern.length := by omega
        rw [hend]
        exact charAt_end m_pattern
      have hsymbol : substr m_pattern (i + 1) (m - i - 1) = some sym := by
        rw [hP]
        exact substr_append (by omega) (by omega) (by omega)
      have hdrop : m_pattern.drop (toSize m) = [] :=
        drop_toSize hP (by rw [hm]; simp) (by simp; omega)
      rw [readDirective_stop (by omega) hchar (by decide), hsymbol, Option.map_some,
        Option.map_some, leave, hdrop, readSymbol]
  | cons c rest ih =>
      intro sym m hP hm hi
      have hlen : m_pattern.length = front.length + sym.length + rest.length + 1 := by
        rw [hP]
        simp
        omega
      have hchar : charAt m_pattern m = some c := charAt_append hP (by rw [hm]; simp)
      have hsymbol : substr m_pattern (i + 1) (m - i - 1) = some sym := by
        rw [hP]
        exact substr_append (by omega) (by omega) (by omega)
      have hnext : m < 2147483647 := by omega
      have hle : m ≤ m_pattern.length := by omega
      rw [readSymbol]
      by_cases hopen : c = 123
      · subst hopen
        have hbegin : m + 1 = ((front ++ sym ++ [123]).length : Int) := by
          rw [hm]
          simp
          omega
        have hfmt := readDirective_fmt hshort i sym (front ++ sym ++ [123]) rest [] (m + 1)
          (by rw [hP]; simp) (by rw [hbegin]; simp)
        rw [readDirective_open hle hchar hnext, hsymbol, Option.bind_some, if_pos rfl]
        rwa [← hbegin] at hfmt
      · rw [if_neg hopen]
        by_cases htaken : c = 125 ∨ isalnum c = true
        · rw [if_pos htaken, readDirective_take hle hchar hopen htaken hnext]
          exact ih (sym ++ [c]) (m + 1) (by rw [hP]; simp) (by rw [hm]; simp; omega) hi
        · have hstop : c ≠ 123 ∧ c ≠ 125 ∧ isalnum c = false := by
            simp only [not_or, Bool.not_eq_true] at htaken
            exact ⟨hopen, htaken⟩
          have hdrop : m_pattern.drop (toSize m) = c :: rest :=
            drop_toSize hP (by rw [hm]; simp) (by simp; omega)
          rw [if_neg htaken, readDirective_stop hle hchar hstop, hsymbol, Option.map_some,
            Option.map_some, leave, hdrop]

/-! ## The outer loop -/

/-- A turn at a byte that is not `%`. -/
theorem turn_lit {nstr : Str} {vec : List Entry} (hc : m_pattern[i]? = some c) (hlit : c ≠ 37) :
    turn m_pattern i nstr vec = some (.next (i + 1) (nstr ++ [c]) vec) := by
  rw [turn, hc]
  exact if_pos hlit

/-- A turn at two percent signs. -/
theorem turn_esc {nstr : Str} {vec : List Entry} (hc : m_pattern[i]? = some 37)
    (hesc : m_pattern[i + 1]? = some 37) :
    turn m_pattern i nstr vec = some (.next (i + 1) (nstr ++ [37]) vec) := by
  rw [turn, hc]
  dsimp only
  rw [if_neg (not_not_intro rfl), if_pos hesc]

/-- A turn at a directive: the entries, and the rest of the pattern. -/
theorem turn_dir (hshort : Short m_pattern) (nstr : Str) (vec : List Entry) {rest : Str}
    (hdrop : m_pattern.drop i = 37 :: rest) (hesc : rest.head? ≠ some 37) :
    (turn m_pattern i nstr vec = none ∧ readSymbol (isFull m_pattern) [] rest = none) ∨
      ∃ k symbol fmt, i + 1 ≤ k ∧
        turn m_pattern i nstr vec =
          some (.next k [] (vec ++ literalEntry nstr ++ directiveEntry symbol fmt)) ∧
        readSymbol (isFull m_pattern) [] rest = some (symbol, fmt, m_pattern.drop k) := by
  have hlength : m_pattern.length ≤ 2147483647 := hshort
  have hlt : i < m_pattern.length := by
    by_contra hle
    rw [List.drop_eq_nil_of_le (Nat.not_lt.mp hle)] at hdrop
    cases hdrop
  have hcons := List.drop_eq_getElem_cons hlt
  rw [hdrop] at hcons
  obtain ⟨hbyte, hrest⟩ := List.cons.inj hcons
  have hc : m_pattern[i]? = some 37 := by
    rw [List.getElem?_eq_getElem hlt, ← hbyte]
  have hnext : m_pattern[i + 1]? ≠ some 37 := by
    rw [hrest, List.head?_drop] at hesc
    exact hesc
  have hfront : (m_pattern.take (i + 1)).length = i + 1 := by
    rw [List.length_take]
    omega
  have hread := readDirective_eq (i := i) hshort (m_pattern.drop (i + 1)) []
    ((i + 1 : Nat) : Int) (by simp) (by rw [hfront]; simp) hfront
  have hturn : turn m_pattern i nstr vec = (readDirective m_pattern i m_pattern.length
      ((i + 1 : Nat) : Int) ⟨[], [], false, 0⟩).map fun r =>
        .next (toSize r.1) [] (vec ++ literalEntry nstr ++ directiveEntry r.2.symbol r.2.fmt) := by
    rw [turn, hc]
    dsimp only
    rw [if_neg (not_not_intro rfl), if_neg hnext, toInt_of_le hlength, toInt_of_le (by omega)]
  rw [hturn, hrest, ← hread]
  cases hdir : readDirective m_pattern i m_pattern.length ((i + 1 : Nat) : Int)
      ⟨[], [], false, 0⟩ with
  | none => exact Or.inl ⟨rfl, rfl⟩
  | some r =>
      obtain ⟨m, s⟩ := r
      refine Or.inr ⟨toSize m, s.symbol, s.fmt, ?_, rfl, rfl⟩
      rw [hdir, Option.map_some] at hread
      have hshorter := length_readSymbol _ hread.symm
      simp only [leave, List.length_drop] at hshorter
      omega

/-- The loop over positions is the scanner over the rest, given enough turns. -/
theorem scanPattern_eq (hshort : Short m_pattern) :
    ∀ (turns i : Nat) (nstr : Str) (vec : List Entry), m_pattern.length < i + turns → 0 < turns →
      (scanPattern m_pattern turns i nstr vec).map view =
        (scan (isFull m_pattern) nstr (m_pattern.drop i)).map (join (view vec)) := by
  intro turns
  induction turns with
  | zero => exact fun _ _ _ _ h => absurd h (Nat.lt_irrefl 0)
  | succ turns ih =>
      intro i nstr vec hturns _
      rw [scanPattern]
      cases hget : m_pattern[i]? with
      | none =>
          have hle : m_pattern.length ≤ i := List.getElem?_eq_none_iff.mp hget
          have hturn : turn m_pattern i nstr vec = some (.done vec) := by
            rw [turn, hget]
          rw [hturn, List.drop_eq_nil_of_le hle, scan_nil, Option.map_some, Option.map_some]
          simp [join, view]
      | some c =>
          obtain ⟨hlt, hc⟩ := List.getElem?_eq_some_iff.mp hget
          have hdrop : m_pattern.drop i = c :: m_pattern.drop (i + 1) := by
            rw [List.drop_eq_getElem_cons hlt, hc]
          have hrec : ∀ k, i + 1 ≤ k → ∀ (nstr : Str) (vec : List Entry),
              (scanPattern m_pattern turns k nstr vec).map view =
                (scan (isFull m_pattern) nstr (m_pattern.drop k)).map (join (view vec)) :=
            fun k hk nstr vec => ih k nstr vec (by omega) (by omega)
          by_cases hlit : c ≠ 37
          · rw [turn_lit hget hlit, hdrop, scan_lit _ _ hlit]
            exact hrec (i + 1) (Nat.le_refl _) _ _
          · obtain rfl : c = 37 := not_not.mp hlit
            by_cases hesc : (m_pattern.drop (i + 1)).head? = some 37
            · obtain ⟨rest, hrest⟩ := List.head?_eq_some_iff.mp hesc
              rw [List.head?_drop] at hesc
              rw [turn_esc hget hesc, hdrop, hrest, scan_esc, ← hrest]
              exact hrec (i + 1) (Nat.le_refl _) _ _
            · rw [hdrop, scan_dir _ _ hesc]
              rcases turn_dir hshort nstr vec hdrop hesc with
                ⟨hturn, hread⟩ | ⟨k, symbol, fmt, hk, hturn, hread⟩
              · rw [hturn, hread]
                rfl
              · rw [hturn, hread, Option.bind_some]
                dsimp only
                rw [hrec k hk, List.append_assoc, view_append, Option.map_map]
                congr 1
                funext out
                exact join_assoc _ _ _

/-- More turns do not change the result. -/
theorem scanPattern_mono {vec' : List Entry} :
    ∀ (turns i : Nat) (nstr : Str) (vec : List Entry),
      scanPattern m_pattern turns i nstr vec = some vec' → ∀ more,
        scanPattern m_pattern (turns + more) i nstr vec = some vec' := by
  intro turns
  induction turns with
  | zero =>
      intro i nstr vec h
      cases h
  | succ turns ih =>
      intro i nstr vec h more
      have hsucc : turns + 1 + more = turns + more + 1 := by omega
      rw [hsucc]
      rw [scanPattern] at h ⊢
      cases hturn : turn m_pattern i nstr vec with
      | none =>
          rw [hturn] at h
          cases h
      | some t =>
          rw [hturn] at h
          cases t with
          | done vec => exact h
          | next i nstr vec => exact ih _ _ _ h more

/-- A brace that is not closed only matters for a full pattern. -/
theorem readFmt_isSome (symbol fmt rest : Str) : (readFmt false symbol fmt rest).isSome = true := by
  induction rest generalizing fmt with
  | nil => rfl
  | cons c rest ih =>
      rw [readFmt]
      by_cases hc : c = 125
      · rw [if_pos hc]
        rfl
      · rw [if_neg hc]
        exact ih _

/-- With the asserted reading a symbol always ends. -/
theorem readSymbol_isSome (symbol rest : Str) : (readSymbol false symbol rest).isSome = true := by
  induction rest generalizing symbol with
  | nil => rfl
  | cons c rest ih =>
      rw [readSymbol]
      by_cases hopen : c = 123
      · rw [if_pos hopen]
        exact readFmt_isSome _ _ _
      · rw [if_neg hopen]
        by_cases htaken : c = 125 ∨ isalnum c = true
        · rw [if_pos htaken]
          exact ih _
        · rw [if_neg htaken]
          rfl

/-- With the asserted reading the scan always ends. -/
theorem scan_isSome (nstr text : Str) : (scan false nstr text).isSome = true := by
  induction nstr, text using scan.induct false with
  | case1 nstr => rw [scan_nil]; rfl
  | case2 nstr c rest hlit ih =>
      rw [scan_lit false nstr hlit]
      exact ih
  | case3 nstr c rest hlit hesc ih =>
      obtain rfl : c = 37 := not_not.mp hlit
      obtain ⟨rest, rfl⟩ := List.head?_eq_some_iff.mp hesc
      rw [scan_esc]
      exact ih
  | case4 nstr c rest hlit hesc hread =>
      have hsome := readSymbol_isSome [] rest
      rw [hread] at hsome
      cases hsome
  | case5 nstr c rest hlit hesc r hread ih =>
      obtain rfl : c = 37 := not_not.mp hlit
      rw [scan_dir false nstr hesc, hread, Option.bind_some, Option.isSome_map]
      exact ih

/-- Whatever the pattern, `init` ends and stays within the string and its terminator, as
long as an `int` can count its bytes and two more. -/
theorem init_isSome {m_pattern : Str} (hlength : m_pattern.length < 2147483647) :
    (init (m_pattern.length + 1) m_pattern).isSome = true := by
  have hshort : Short m_pattern := Nat.le_of_lt hlength
  have hscan := scanPattern_eq hshort (m_pattern.length + 1) 0 [] [] (by omega) (Nat.succ_pos _)
  have hfull : isFull m_pattern = false := decide_eq_false (Nat.ne_of_lt hlength)
  have hsome := congrArg Option.isSome hscan
  rw [Option.isSome_map, Option.isSome_map, hfull, scan_isSome] at hsome
  rw [init, Option.isSome_map, hsome]

/-- What `init` makes is what the scan gives. -/
theorem view_init (turns : Nat) (m_pattern : Str) :
    (init turns m_pattern).map (fun f => (f.format, f.m_error)) =
      (scanPattern m_pattern turns 0 [] []).map view := by
  rw [init, Option.map_map]
  congr 1
  funext vec
  simp [LogFormatter.format, view, List.flatMap_map]

/-- `init` and the scanner: the one says what the other prints. -/
theorem keeps_iff_scan {ts : List Token} (hshort : Short (render ts)) :
    Keeps ts ↔ scan (isFull (render ts)) [] (render ts) = some (meaning ts, ts.any Token.isError) := by
  have henough : ∀ turns, (render ts).length < turns →
      (scanPattern (render ts) turns 0 [] []).map view =
        scan (isFull (render ts)) [] (render ts) := by
    intro turns hturns
    rw [scanPattern_eq hshort turns 0 [] [] (by omega) (by omega), List.drop_zero]
    exact Option.map_id_fun' ▸ rfl
  constructor
  · rintro ⟨turns, f, hinit, hformat, herror⟩
    have hview := view_init turns (render ts)
    rw [hinit, Option.map_some, hformat, herror] at hview
    obtain ⟨vec, hvec, hsays⟩ := Option.map_eq_some_iff.mp hview.symm
    rw [← henough (turns + ((render ts).length + 1)) (by omega), scanPattern_mono turns 0 [] [] hvec,
      Option.map_some, hsays]
  · intro hscan
    have hview := view_init ((render ts).length + 1) (render ts)
    rw [henough _ (Nat.lt_succ_self _), hscan] at hview
    obtain ⟨f, hinit, hsays⟩ := Option.map_eq_some_iff.mp hview
    exact ⟨_, f, hinit, (Prod.mk.inj hsays).1, (Prod.mk.inj hsays).2⟩

end LogPattern

end Agent
