import GServer.LogPatternScan
import Mathlib.Data.List.Count

/-!
# Which patterns are kept

Token by token, what `scan` prints is what the tokens mean, until a byte comes that the
scanner takes for something else.  `LogPattern.keeps_iff_regular` says exactly for which
patterns no such byte comes.

After an escape with `{` behind it the scanner goes on behind the next `}`, and what it
prints from there might be right by chance.  It is not: it prints fewer `{`, which
`opens_scan` counts.
-/

namespace Agent

open Http (Str)

namespace LogPattern

variable {full : Bool}

/-! ## Symbols and formats -/

/-- Letters and digits go into the symbol. -/
theorem readSymbol_append {sym : Str} (hsym : ∀ c ∈ sym, isalnum c = true) (symbol rest : Str) :
    readSymbol full symbol (sym ++ rest) = readSymbol full (symbol ++ sym) rest := by
  induction sym generalizing symbol with
  | nil => simp
  | cons c sym ih =>
      have hc : isalnum c = true := hsym c List.mem_cons_self
      have hopen : c ≠ 123 := by
        rintro rfl
        cases hc
      rw [List.cons_append, readSymbol, if_neg hopen, if_pos (Or.inr hc),
        ih fun d hd => hsym d (List.mem_cons_of_mem c hd), List.append_assoc]
      rfl

/-- A symbol ends at the end and before every byte that is neither alphanumeric nor a
brace. -/
theorem readSymbol_stop {rest : Str} (h : ∀ c, rest.head? = some c → Plain c) (symbol : Str) :
    readSymbol full symbol rest = some (symbol, [], rest) := by
  cases rest with
  | nil => rw [readSymbol]
  | cons c rest =>
      obtain ⟨halnum, hopen, hclose⟩ := h c rfl
      rw [readSymbol, if_neg hopen, if_neg]
      simp [hclose, halnum]

/-- Everything up to the brace goes into the format. -/
theorem readFmt_append {xs : Str} (hxs : 125 ∉ xs) (symbol fmt rest : Str) :
    readFmt full symbol fmt (xs ++ rest) = readFmt full symbol (fmt ++ xs) rest := by
  induction xs generalizing fmt with
  | nil => simp
  | cons c xs ih =>
      simp only [List.mem_cons, not_or] at hxs
      rw [List.cons_append, readFmt, if_neg (Ne.symm hxs.1), ih hxs.2, List.append_assoc]
      rfl

/-- The brace ends the format. -/
theorem readFmt_close (symbol fmt rest : Str) :
    readFmt full symbol fmt (125 :: rest) = some (symbol, fmt, rest) := by
  rw [readFmt, if_pos rfl]

/-- Reading a format keeps the symbol. -/
theorem readFmt_symbol {symbol : Str} (rest : Str) {fmt : Str} {r : Str × Str × Str}
    (h : readFmt full symbol fmt rest = some r) : r.1 = symbol := by
  induction rest generalizing fmt with
  | nil =>
      rw [readFmt] at h
      obtain ⟨-, h⟩ := Option.ite_none_left_eq_some.mp h
      rw [← Option.some.inj h]
  | cons c rest ih =>
      rw [readFmt] at h
      by_cases hc : c = 125
      · rw [if_pos hc] at h
        rw [← Option.some.inj h]
      · rw [if_neg hc] at h
        exact ih h

/-- What has been read of a symbol stays its beginning. -/
theorem readSymbol_begins (rest : Str) {symbol : Str} {r : Str × Str × Str}
    (h : readSymbol full symbol rest = some r) : ∃ more, r.1 = symbol ++ more := by
  induction rest generalizing symbol with
  | nil =>
      rw [readSymbol] at h
      rw [← Option.some.inj h]
      exact ⟨[], (List.append_nil _).symm⟩
  | cons c rest ih =>
      rw [readSymbol] at h
      by_cases hopen : c = 123
      · rw [if_pos hopen] at h
        exact ⟨[], by rw [readFmt_symbol rest h, List.append_nil]⟩
      · rw [if_neg hopen] at h
        by_cases htaken : c = 125 ∨ isalnum c = true
        · rw [if_pos htaken] at h
          obtain ⟨more, hmore⟩ := ih h
          exact ⟨c :: more, by rw [hmore, List.append_assoc]; rfl⟩
        · rw [if_neg htaken] at h
          rw [← Option.some.inj h]
          exact ⟨[], (List.append_nil _).symm⟩

/-! ## What is printed -/

/-- A text entry prints its characters. -/
theorem view_literalEntry (nstr : Str) : view (literalEntry nstr) = (nstr.map .char, false) := by
  by_cases h : nstr = []
  · subst h
    rfl
  · simp [literalEntry, h, view, Entry.item, Entry.isError, FormatItem.print]

/-- A directive entry prints its item or its error. -/
theorem view_directiveEntry {symbol : Str} (h : symbol ≠ []) (fmt : Str) :
    view (directiveEntry symbol fmt) =
      ((Token.dir symbol (some fmt)).meaning, (Token.dir symbol (some fmt)).isError) := by
  have hentry : ∃ type, type ≠ 2 ∧ directiveEntry symbol fmt = [⟨symbol, fmt, type⟩] := by
    by_cases hfmt : fmt = []
    · exact ⟨0, by decide, by simp [directiveEntry, h, hfmt]⟩
    · exact ⟨1, by decide, by simp [directiveEntry, h, hfmt]⟩
  obtain ⟨type, htype, hentry⟩ := hentry
  rw [hentry]
  cases hitem : formatItems symbol with
  | none => simp [view, Entry.item, Entry.isError, htype, hitem, Token.meaning, Token.isError,
      FormatItem.print]
  | some c => simp [view, Entry.item, Entry.isError, htype, hitem, Token.meaning, Token.isError,
      FormatItem.print]

/-- A symbol that nobody knows means its error text. -/
theorem meaning_of_unknown {sym : Str} (h : formatItems sym = none) (fmt : Option Str) :
    (Token.dir sym fmt).meaning = (errorText sym).map .char := by
  simp only [Token.meaning, h]

/-- A known symbol means its item. -/
theorem meaning_of_known {sym : Str} {i : ItemClass} (h : formatItems sym = some i)
    (fmt : Option Str) : (Token.dir sym fmt).meaning = [.item i (fmt.getD [])] := by
  simp only [Token.meaning, h]

/-- What a directive prints starts with an item or with the error text. -/
theorem meaning_dir_head (sym : Str) (fmt : Option Str) :
    ∃ x rest, (Token.dir sym fmt).meaning = x :: rest ∧ ∀ c, x = .char c → c = 60 := by
  cases hitem : formatItems sym with
  | none =>
      exact ⟨.char 60, _, meaning_of_unknown hitem fmt, fun c hc => (Printed.char.inj hc).symm⟩
  | some i => exact ⟨.item i _, [], meaning_of_known hitem fmt, fun c hc => by cases hc⟩

/-- A directive is a literal, an item and what the rest prints. -/
theorem scan_dir_eq_some {nstr rest symbol fmt rest' : Str} {out : List Printed × Bool}
    (hrest : rest.head? ≠ some 37) (hread : readSymbol full [] rest = some (symbol, fmt, rest')) :
    scan full nstr (37 :: rest) = some out ↔
      ∃ out', scan full [] rest' = some out' ∧
        join (nstr.map .char, false) (join (view (directiveEntry symbol fmt)) out') = out := by
  rw [scan_dir full nstr hrest, hread, Option.bind_some, Option.map_eq_some_iff]
  simp only [view_append, view_literalEntry, join_assoc]

/-- What is pending at a directive is printed first. -/
theorem scan_dir_begins {nstr rest : Str} {out : List Printed × Bool}
    (hrest : rest.head? ≠ some 37) (h : scan full nstr (37 :: rest) = some out) :
    ∃ more, out.1 = nstr.map .char ++ more := by
  cases hread : readSymbol full [] rest with
  | none =>
      rw [scan_dir full nstr hrest, hread] at h
      cases h
  | some r =>
      obtain ⟨out', -, hout⟩ := (scan_dir_eq_some hrest hread).mp h
      exact ⟨_, (congrArg Prod.fst hout).symm⟩

/-! ## Tokens -/

theorem render_cons (t : Token) (ts : List Token) : render (t :: ts) = t.render ++ render ts := rfl

theorem meaning_cons (t : Token) (ts : List Token) : meaning (t :: ts) = t.meaning ++ meaning ts :=
  rfl

/-- What follows a token of a well-formed list is well-formed. -/
theorem wellFormed_tail {t : Token} {ts : List Token} (h : WellFormed (t :: ts)) :
    WellFormed ts := by
  cases t with
  | lit c => exact h.2
  | esc => exact h
  | dir sym fmt =>
      cases fmt with
      | none => exact h.2.2
      | some fmt => exact h.2.2

/-- The symbol of a directive. -/
theorem wellFormed_symbol {sym : Str} {fmt : Option Str} {ts : List Token}
    (h : WellFormed (.dir sym fmt :: ts)) : sym ≠ [] ∧ ∀ c ∈ sym, isalnum c = true := by
  cases fmt with
  | none => exact h.1
  | some fmt => exact h.1

/-- The byte behind the `%` of a directive. -/
theorem head_symbol {sym : Str} (h : sym ≠ [] ∧ ∀ c ∈ sym, isalnum c = true) (rest : Str) :
    (sym ++ rest).head? ≠ some 37 := by
  obtain ⟨hne, halnum⟩ := h
  cases sym with
  | nil => exact absurd rfl hne
  | cons c sym =>
      intro heq
      obtain rfl := Option.some.inj heq
      have hc := halnum 37 List.mem_cons_self
      cases hc

/-- After an escape comes nothing, or a plain character. -/
theorem regular_esc_iff (ts : List Token) : Regular (.esc :: ts) ↔
    (ts = [] ∨ ∃ c ts', ts = .lit c :: ts' ∧ Plain c) ∧ Regular ts := by
  cases ts with
  | nil => simp [Regular]
  | cons t ts =>
      cases t with
      | lit c => simp [Regular]
      | esc => simp [Regular]
      | dir sym fmt => simp [Regular]

/-- After a directive without format comes no brace. -/
theorem regular_dir_iff (sym : Str) (fmt : Option Str) (ts : List Token) :
    Regular (.dir sym fmt :: ts) ↔
      (fmt = none → ∀ c ts', ts = .lit c :: ts' → c ≠ 123 ∧ c ≠ 125) ∧ Regular ts := by
  cases fmt with
  | some fmt => simp [Regular]
  | none =>
      cases ts with
      | nil => simp [Regular]
      | cons t ts =>
          cases t with
          | lit c => simp [Regular]
          | esc => simp [Regular]
          | dir sym fmt => simp [Regular]

/-- What follows a token of a regular pattern that does not take it in. -/
theorem head_render_plain {ts : List Token} (h : ∀ c ts', ts = .lit c :: ts' → Plain c) :
    ∀ c, (render ts).head? = some c → Plain c := by
  intro c hc
  cases ts with
  | nil => cases hc
  | cons t ts =>
      cases t with
      | lit d =>
          obtain rfl := Option.some.inj hc
          exact h d ts rfl
      | esc =>
          obtain rfl := Option.some.inj hc
          decide
      | dir sym fmt =>
          cases fmt with
          | none =>
              obtain rfl := Option.some.inj hc
              decide
          | some fmt =>
              obtain rfl := Option.some.inj hc
              decide

/-- The symbol of a directive is read up to its format or to the next token. -/
theorem readSymbol_dir (full : Bool) {sym : Str} {fmt : Option Str} {ts : List Token}
    (h : WellFormed (.dir sym fmt :: ts))
    (hplain : fmt = none → ∀ c, (render ts).head? = some c → Plain c) :
    ∃ rest, render (.dir sym fmt :: ts) = 37 :: rest ∧ rest.head? ≠ some 37 ∧
      readSymbol full [] rest = some (sym, fmt.getD [], render ts) := by
  have hsymbol := wellFormed_symbol h
  cases fmt with
  | none =>
      refine ⟨sym ++ render ts, rfl, head_symbol hsymbol _, ?_⟩
      rw [readSymbol_append hsymbol.2, List.nil_append, readSymbol_stop (hplain rfl)]
      rfl
  | some fmt =>
      refine ⟨sym ++ 123 :: (fmt ++ 125 :: render ts), ?_, head_symbol hsymbol _, ?_⟩
      · simp [render_cons, Token.render]
      · rw [readSymbol_append hsymbol.2, readSymbol, if_pos rfl, readFmt_append h.2.1,
          readFmt_close]
        rfl

/-! ## Regular patterns -/

/-- A directive that is read as it was written. -/
theorem scan_dir_iff {sym : Str} {fmt : Option Str} {ts : List Token} {nstr : Str}
    {out : List Printed × Bool} (h : WellFormed (.dir sym fmt :: ts))
    (hplain : fmt = none → ∀ c, (render ts).head? = some c → Plain c) :
    scan full nstr (render (.dir sym fmt :: ts)) = some out ↔
      ∃ out', scan full [] (render ts) = some out' ∧
        join (nstr.map .char ++ (Token.dir sym fmt).meaning, (Token.dir sym fmt).isError) out' =
          out := by
  obtain ⟨rest, hrender, hhead, hread⟩ := readSymbol_dir full h hplain
  have hmeaning : view (directiveEntry sym (fmt.getD [])) =
      ((Token.dir sym fmt).meaning, (Token.dir sym fmt).isError) := by
    rw [view_directiveEntry (wellFormed_symbol h).1]
    cases fmt with
    | none => rfl
    | some fmt => rfl
  rw [hrender, scan_dir_eq_some hhead hread, hmeaning]
  simp only [join, List.append_assoc, Bool.false_or]

/-- An escape with nothing behind it that it would take in. -/
theorem scan_esc_iff {ts : List Token} {nstr : Str} {out : List Printed × Bool}
    (hhead : (render ts).head? ≠ some 37) (hplain : ∀ c, (render ts).head? = some c → Plain c) :
    scan full nstr (render (.esc :: ts)) = some out ↔
      ∃ out', scan full [] (render ts) = some out' ∧
        join ((nstr ++ [37]).map .char, false) out' = out := by
  have hrender : render (.esc :: ts) = 37 :: 37 :: render ts := rfl
  rw [hrender, scan_esc, scan_dir_eq_some hhead (readSymbol_stop hplain [])]
  rfl

/-- A regular pattern prints what it means. -/
theorem scan_of_regular {ts : List Token} (h : WellFormed ts) (hregular : Regular ts)
    (nstr : Str) (hnstr : ts = [] → nstr = []) :
    scan full nstr (render ts) =
      some (nstr.map .char ++ meaning ts, ts.any Token.isError) := by
  induction ts generalizing nstr with
  | nil =>
      rw [hnstr rfl]
      exact scan_nil full []
  | cons t ts ih =>
      have htail := wellFormed_tail h
      cases t with
      | lit c =>
          have hrest := ih htail hregular.2 (nstr ++ [c])
            fun hnil => absurd hnil hregular.1
          have hrender : render (.lit c :: ts) = c :: render ts := rfl
          rw [hrender, scan_lit full nstr h.1, hrest, List.map_append, List.append_assoc]
          rfl
      | esc =>
          obtain ⟨hbehind, hregular⟩ := (regular_esc_iff ts).mp hregular
          have hplain : ∀ c ts', ts = .lit c :: ts' → Plain c := by
            rintro c ts' rfl
            rcases hbehind with hnil | ⟨d, ts'', heq, hd⟩
            · cases hnil
            · obtain rfl := Token.lit.inj (List.cons.inj heq).1
              exact hd
          have hhead : (render ts).head? ≠ some 37 := by
            rcases hbehind with rfl | ⟨c, ts', rfl, -⟩
            · exact nofun
            · exact fun heq => htail.1 (Option.some.inj heq)
          refine (scan_esc_iff hhead (head_render_plain hplain)).mpr
            ⟨_, ih htail hregular [] fun _ => rfl, ?_⟩
          simp [join, meaning_cons, Token.meaning, Token.isError]
      | dir sym fmt =>
          obtain ⟨hbrace, hregular⟩ := (regular_dir_iff sym fmt ts).mp hregular
          have hplain : fmt = none → ∀ c, (render ts).head? = some c → Plain c := by
            rintro rfl
            refine head_render_plain fun c ts' heq => ⟨?_, hbrace rfl c ts' heq⟩
            exact h.2.1.1 c (by rw [heq]; rfl)
          refine (scan_dir_iff h hplain).mpr ⟨_, ih htail hregular [] fun _ => rfl, ?_⟩
          simp [join, meaning_cons]

/-! ## Where a token is taken in -/

/-- A brace that opens closes at the end of a token. -/
theorem readFmt_render {ts : List Token} (h : WellFormed ts) {symbol fmt : Str}
    {r : Str × Str × Str} (hread : readFmt full symbol fmt (render ts) = some r) :
    ∃ ts', ts' <:+ ts ∧ r.2.2 = render ts' := by
  induction ts generalizing fmt with
  | nil =>
      change readFmt full symbol fmt [] = some r at hread
      rw [readFmt] at hread
      obtain ⟨-, hread⟩ := Option.ite_none_left_eq_some.mp hread
      rw [← Option.some.inj hread]
      exact ⟨[], List.suffix_refl [], rfl⟩
  | cons t ts ih =>
      have hskip : ∀ xs : Str, 125 ∉ xs → render (t :: ts) = xs ++ render ts →
          ∃ ts', ts' <:+ t :: ts ∧ r.2.2 = render ts' := by
        intro xs hxs hrender
        rw [hrender, readFmt_append hxs] at hread
        obtain ⟨ts', hsuffix, heq⟩ := ih (wellFormed_tail h) hread
        exact ⟨ts', hsuffix.trans (List.suffix_cons t ts), heq⟩
      have hclose : ∀ xs : Str, 125 ∉ xs → render (t :: ts) = xs ++ 125 :: render ts →
          ∃ ts', ts' <:+ t :: ts ∧ r.2.2 = render ts' := by
        intro xs hxs hrender
        rw [hrender, readFmt_append hxs, readFmt_close] at hread
        rw [← Option.some.inj hread]
        exact ⟨ts, List.suffix_cons t ts, rfl⟩
      cases t with
      | lit c =>
          by_cases hc : c = 125
          · subst hc
            exact hclose [] List.not_mem_nil rfl
          · exact hskip [c] (by simpa using Ne.symm hc) rfl
      | esc => exact hskip [37, 37] (by decide) rfl
      | dir sym fmt =>
          have hsymbol : 125 ∉ sym := by
            intro hmem
            have hc := (wellFormed_symbol h).2 125 hmem
            cases hc
          cases fmt with
          | none => exact hskip (37 :: sym) (by simpa using hsymbol) rfl
          | some fmt =>
              refine hclose (37 :: sym ++ 123 :: fmt) (by simp [hsymbol, h.2.1]) ?_
              simp [render_cons, Token.render]

/-- A symbol that ends at a token leaves whole tokens. -/
theorem readSymbol_render_stop {ts : List Token} {symbol : Str} {r : Str × Str × Str}
    (hread : readSymbol full symbol (render ts) = some r) (hopen : 123 ∉ symbol)
    (hplain : ∀ c, (render ts).head? = some c → Plain c) :
    ∃ ts', ts' <:+ ts ∧ r.2.2 = render ts' ∧ 123 ∉ r.1 := by
  rw [readSymbol_stop hplain] at hread
  rw [← Option.some.inj hread]
  exact ⟨ts, List.suffix_refl ts, rfl, hopen⟩

/-- A directive that begins before a token ends at the end of one. -/
theorem readSymbol_render {ts : List Token} (h : WellFormed ts) {symbol : Str}
    {r : Str × Str × Str} (hread : readSymbol full symbol (render ts) = some r)
    (hopen : 123 ∉ symbol) : ∃ ts', ts' <:+ ts ∧ r.2.2 = render ts' ∧ 123 ∉ r.1 := by
  induction ts generalizing symbol with
  | nil => exact readSymbol_render_stop hread hopen nofun
  | cons t ts ih =>
      have htail := wellFormed_tail h
      cases t with
      | esc =>
          exact readSymbol_render_stop hread hopen
            (head_render_plain fun c ts' heq => by cases heq)
      | dir sym fmt =>
          exact readSymbol_render_stop hread hopen
            (head_render_plain fun c ts' heq => by cases heq)
      | lit c =>
          by_cases hplain : Plain c
          · refine readSymbol_render_stop hread hopen (head_render_plain fun d ts' heq => ?_)
            obtain rfl := Token.lit.inj (List.cons.inj heq).1
            exact hplain
          · have hrender : render (.lit c :: ts) = c :: render ts := rfl
            rw [hrender, readSymbol] at hread
            by_cases hc : c = 123
            · rw [if_pos hc] at hread
              obtain ⟨ts', hsuffix, heq⟩ := readFmt_render htail hread
              refine ⟨ts', hsuffix.trans (List.suffix_cons _ ts), heq, ?_⟩
              rwa [readFmt_symbol _ hread]
            · have htaken : c = 125 ∨ isalnum c = true := by
                by_contra hnot
                simp only [not_or, Bool.not_eq_true] at hnot
                exact hplain ⟨hnot.2, hc, hnot.1⟩
              have hopen' : 123 ∉ symbol ++ [c] := by
                simp [hopen, Ne.symm hc]
              rw [if_neg hc, if_pos htaken] at hread
              obtain ⟨ts', hsuffix, heq, hr⟩ := ih htail hread hopen'
              exact ⟨ts', hsuffix.trans (List.suffix_cons _ ts), heq, hr⟩

/-- So does a directive of the pattern. -/
theorem readSymbol_dir_render (full : Bool) {sym : Str} {fmt : Option Str} {ts : List Token}
    (h : WellFormed (.dir sym fmt :: ts)) :
    ∃ rest, render (.dir sym fmt :: ts) = 37 :: rest ∧ rest.head? ≠ some 37 ∧
      ∀ r, readSymbol full [] rest = some r →
        ∃ ts', ts' <:+ ts ∧ r.2.2 = render ts' ∧ 123 ∉ r.1 := by
  have hsymbol := wellFormed_symbol h
  have hopen : 123 ∉ sym := by
    intro hmem
    have hc := hsymbol.2 123 hmem
    cases hc
  cases fmt with
  | none =>
      refine ⟨sym ++ render ts, rfl, head_symbol hsymbol _, fun r hread => ?_⟩
      rw [readSymbol_append hsymbol.2, List.nil_append] at hread
      exact readSymbol_render (wellFormed_tail h) hread hopen
  | some fmt =>
      obtain ⟨rest, hrender, hhead, hread⟩ := readSymbol_dir full h nofun
      refine ⟨rest, hrender, hhead, fun r hr => ?_⟩
      rw [hread] at hr
      rw [← Option.some.inj hr]
      exact ⟨ts, List.suffix_refl ts, rfl, hopen⟩

/-! ## Counting open braces -/

/-- How many `{` are printed. -/
def opens (out : List Printed) : Nat :=
  out.count (.char 123)

theorem opens_append (a b : List Printed) : opens (a ++ b) = opens a + opens b :=
  List.count_append

/-- A text opens as many braces as it has. -/
theorem opens_map (s : Str) : opens (s.map .char) = s.count 123 := by
  have hinj : Function.Injective Printed.char := fun _ _ h => Printed.char.inj h
  exact List.count_map_of_injective s Printed.char hinj 123

/-- Fewer tokens open no more. -/
theorem opens_suffix {ts ts' : List Token} (h : ts' <:+ ts) :
    opens (meaning ts') ≤ opens (meaning ts) := by
  obtain ⟨front, rfl⟩ := h
  rw [meaning, meaning, List.flatMap_append, opens_append]
  exact Nat.le_add_left _ _

/-- A directive whose symbol has no `{` prints none. -/
theorem opens_directive {symbol : Str} (h : 123 ∉ symbol) (fmt : Str) :
    opens (view (directiveEntry symbol fmt)).1 = 0 := by
  by_cases hne : symbol = []
  · subst hne
    rfl
  · rw [view_directiveEntry hne]
    cases hitem : formatItems symbol with
    | none =>
        rw [meaning_of_unknown hitem, opens_map, List.count_eq_zero]
        simp [errorText, h]
    | some i =>
        rw [meaning_of_known hitem]
        rfl

/-- The scanner prints at most as many `{` as the tokens mean. -/
def BoundedOpens (full : Bool) (ts : List Token) : Prop :=
  ∀ (nstr : Str) (out : List Printed × Bool), scan full nstr (render ts) = some out →
    opens out.1 ≤ nstr.count 123 + opens (meaning ts)

/-- A directive that ends before a part of the tokens. -/
theorem opens_scan_dir {ts ts' : List Token} {nstr rest : Str} {out : List Printed × Bool}
    {r : Str × Str × Str} (hts' : BoundedOpens full ts') (hsuffix : ts' <:+ ts)
    (hhead : rest.head? ≠ some 37) (hread : readSymbol full [] rest = some r)
    (hrest : r.2.2 = render ts') (hopen : 123 ∉ r.1)
    (h : scan full nstr (37 :: rest) = some out) :
    opens out.1 ≤ nstr.count 123 + opens (meaning ts) := by
  obtain ⟨out', hout', rfl⟩ := (scan_dir_eq_some hhead hread).mp h
  rw [hrest] at hout'
  have hbound := hts' [] out' hout'
  have hle := opens_suffix hsuffix
  simp only [join, opens_append, opens_map, opens_directive hopen, List.count_nil] at hbound ⊢
  omega

/-- The second `%` of an escape. -/
theorem opens_scan_percent {ts : List Token} (h : WellFormed ts)
    (hts : ∀ ts', ts' <:+ ts → BoundedOpens full ts') {nstr : Str} {out : List Printed × Bool}
    (hscan : scan full nstr (37 :: render ts) = some out) :
    opens out.1 ≤ nstr.count 123 + opens (meaning ts) := by
  by_cases hhead : (render ts).head? = some 37
  · obtain ⟨rest, hrest⟩ := List.head?_eq_some_iff.mp hhead
    rw [hrest, scan_esc, ← hrest] at hscan
    have hbound := hts ts (List.suffix_refl ts) _ _ hscan
    rwa [List.count_append, List.count_singleton, if_neg (by decide), Nat.add_zero] at hbound
  · cases hread : readSymbol full [] (render ts) with
    | none =>
        rw [scan_dir full nstr hhead, hread] at hscan
        cases hscan
    | some r =>
        obtain ⟨ts', hsuffix, hrest, hopen⟩ := readSymbol_render h hread List.not_mem_nil
        exact opens_scan_dir (hts ts' hsuffix) hsuffix hhead hread hrest hopen hscan

/-- The tokens of a well-formed list open no more than they are read with. -/
theorem boundedOpens {ts : List Token} (h : WellFormed ts) :
    ∀ ts', ts' <:+ ts → BoundedOpens full ts' := by
  induction ts with
  | nil =>
      intro ts' hsuffix nstr out hout
      rw [List.suffix_nil.mp hsuffix] at hout
      change scan full nstr [] = some out at hout
      rw [scan_nil] at hout
      rw [← Option.some.inj hout]
      exact Nat.zero_le _
  | cons t ts ih =>
      have htail := wellFormed_tail h
      have ih := ih htail
      intro ts' hsuffix
      rcases List.suffix_cons_iff.mp hsuffix with rfl | hrest
      · intro nstr out hout
        cases t with
        | lit c =>
            have hrender : render (.lit c :: ts) = c :: render ts := rfl
            rw [hrender, scan_lit full nstr h.1] at hout
            have hbound := ih ts (List.suffix_refl ts) _ _ hout
            have hcount : opens (meaning (.lit c :: ts)) = [c].count 123 + opens (meaning ts) := by
              rw [meaning_cons, opens_append, ← opens_map]
              rfl
            rw [List.count_append] at hbound
            omega
        | esc =>
            have hrender : render (.esc :: ts) = 37 :: 37 :: render ts := rfl
            rw [hrender, scan_esc] at hout
            have hbound := opens_scan_percent htail ih hout
            rw [List.count_append, List.count_singleton, if_neg (by decide), Nat.add_zero] at hbound
            have hle := opens_suffix (List.suffix_cons Token.esc ts)
            omega
        | dir sym fmt =>
            obtain ⟨rest, hrender, hhead, hsuffixes⟩ := readSymbol_dir_render full h
            rw [hrender] at hout
            cases hread : readSymbol full [] rest with
            | none =>
                rw [scan_dir full nstr hhead, hread] at hout
                cases hout
            | some r =>
                obtain ⟨ts', hts', hrest, hopen⟩ := hsuffixes r hread
                exact opens_scan_dir (ih ts' hts') (hts'.trans (List.suffix_cons _ ts)) hhead hread
                  hrest hopen hout
      · exact ih ts' hrest

/-! ## Patterns that are not regular -/

/-- A character may be put in front of its copies. -/
theorem append_replicate_concat (nstr : Str) (k : Nat) (c : UInt8) :
    nstr ++ List.replicate k c ++ [c] = nstr ++ [c] ++ List.replicate k c := by
  rw [List.append_assoc, ← List.replicate_succ', List.replicate_succ, List.append_assoc,
    List.singleton_append]

/-- A `%` too many before an escape or a directive stays visible. -/
theorem scan_extra_percent {ts : List Token} (h : WellFormed ts)
    (hhead : (render ts).head? = some 37) (nstr : Str) (more : Nat) (error : Bool) :
    scan full (nstr ++ List.replicate (more + 1) 37) (render ts) ≠
      some (nstr.map .char ++ meaning ts, error) := by
  induction ts generalizing nstr more with
  | nil => cases hhead
  | cons t ts ih =>
      have htail := wellFormed_tail h
      intro hscan
      cases t with
      | lit c => exact h.1 (Option.some.inj hhead)
      | esc =>
          have hrender : render (.esc :: ts) = 37 :: 37 :: render ts := rfl
          have hmeaning : nstr.map .char ++ meaning (.esc :: ts) =
              (nstr ++ [37]).map .char ++ meaning ts := by
            simp [meaning_cons, Token.meaning]
          rw [hrender, scan_esc, hmeaning] at hscan
          by_cases hnext : (render ts).head? = some 37
          · obtain ⟨rest, hrest⟩ := List.head?_eq_some_iff.mp hnext
            have hpending : nstr ++ List.replicate (more + 1) 37 ++ [37] ++ [37] =
                nstr ++ [37] ++ List.replicate (more + 1 + 1) 37 := by
              rw [append_replicate_concat, List.append_assoc, ← List.replicate_succ']
            rw [hrest, scan_esc, ← hrest, hpending] at hscan
            exact ih htail hnext (nstr ++ [37]) (more + 1) hscan
          · -- the next token would have to print the `%`
            obtain ⟨rest, hrest⟩ := scan_dir_begins hnext hscan
            have hpending : (nstr ++ List.replicate (more + 1) 37 ++ [37]).map Printed.char =
                (nstr ++ [37]).map .char ++ (.char 37 :: (List.replicate more 37).map .char) := by
              rw [append_replicate_concat, List.map_append, List.replicate_succ, List.map_cons]
            rw [hpending, List.append_assoc, List.append_cancel_left_eq] at hrest
            cases ts with
            | nil => cases hrest
            | cons t ts =>
                cases t with
                | lit c =>
                    have hc : c = 37 := Printed.char.inj (List.cons.inj hrest).1
                    exact htail.1 hc
                | esc => exact hnext rfl
                | dir sym fmt =>
                    cases fmt with
                    | none => exact hnext rfl
                    | some fmt => exact hnext rfl
      | dir sym fmt =>
          obtain ⟨rest, hrender, hnext, -⟩ := readSymbol_dir_render full h
          rw [hrender] at hscan
          obtain ⟨out, hout⟩ := scan_dir_begins hnext hscan
          obtain ⟨x, out', hfirst, hx⟩ := meaning_dir_head sym fmt
          rw [meaning_cons, hfirst, List.map_append, List.append_assoc,
            List.append_cancel_left_eq, List.replicate_succ] at hout
          have hchar := hx 37 (List.cons.inj hout).1
          cases hchar

/-- A byte that is taken into a symbol behind an escape is not printed there. -/
theorem scan_taken {nstr rest : Str} {c : UInt8} {ts : List Token} {error : Bool}
    (htaken : c = 125 ∨ isalnum c = true) :
    scan full nstr (37 :: c :: rest) ≠
      some (nstr.map .char ++ meaning (.lit c :: ts), error) := by
  intro hscan
  have hopen : c ≠ 123 := by
    rintro rfl
    rcases htaken with h | h
    · exact absurd h (by decide)
    · cases h
  have hhead : (c :: rest).head? ≠ some 37 := by
    intro heq
    obtain rfl := Option.some.inj heq
    rcases htaken with h | h
    · exact absurd h (by decide)
    · cases h
  cases hread : readSymbol full [] (c :: rest) with
  | none =>
      rw [scan_dir full nstr hhead, hread] at hscan
      cases hscan
  | some r =>
      have hbegins := hread
      rw [readSymbol, if_neg hopen, if_pos htaken] at hbegins
      obtain ⟨more, hmore⟩ := readSymbol_begins rest hbegins
      have hsymbol : r.1 ≠ [] := by
        rw [hmore]
        exact List.cons_ne_nil _ _
      obtain ⟨out', -, hout⟩ := (scan_dir_eq_some hhead hread).mp hscan
      obtain ⟨x, tail, hfirst, hx⟩ := meaning_dir_head r.1 (some r.2.1)
      have hprinted := congrArg Prod.fst hout
      rw [view_directiveEntry hsymbol] at hprinted
      simp only [join, hfirst, List.append_cancel_left_eq, List.cons_append] at hprinted
      -- the byte is neither an item nor the `<` of the error text
      have hlt : c = 60 := hx c (List.cons.inj hprinted).1
      rw [hlt] at htaken
      revert htaken
      decide

/-- Braces behind an escape are swallowed with what is between them. -/
theorem scan_swallowed {ts : List Token} (h : WellFormed ts) (nstr : Str) (error : Bool) :
    scan full nstr (37 :: 123 :: render ts) ≠
      some (nstr.map .char ++ meaning (.lit 123 :: ts), error) := by
  intro hscan
  have hhead : ((123 : UInt8) :: render ts).head? ≠ some 37 := by
    intro heq
    exact absurd (Option.some.inj heq) (by decide)
  have hfmt : readSymbol full [] (123 :: render ts) = readFmt full [] [] (render ts) := by
    rw [readSymbol, if_pos rfl]
  cases hread : readFmt full [] [] (render ts) with
  | none =>
      rw [scan_dir full nstr hhead, hfmt, hread] at hscan
      cases hscan
  | some r =>
      have hsymbol : r.1 = [] := readFmt_symbol _ hread
      obtain ⟨ts', hsuffix, hrest⟩ := readFmt_render h hread
      rw [hread] at hfmt
      obtain ⟨out', hout', hout⟩ := (scan_dir_eq_some hhead hfmt).mp hscan
      have hprinted := congrArg Prod.fst hout
      rw [hsymbol] at hprinted
      have hnothing : view (directiveEntry [] r.2.1) = ([], false) := rfl
      simp only [hnothing, join, List.append_cancel_left_eq, List.nil_append] at hprinted
      rw [hrest] at hout'
      have hbound := boundedOpens h ts' hsuffix [] out' hout'
      have hle := opens_suffix hsuffix
      have hcount : opens (meaning (.lit 123 :: ts)) = 1 + opens (meaning ts) := by
        rw [meaning_cons, opens_append]
        rfl
      rw [hprinted, hcount, List.count_nil] at hbound
      omega

/-- A brace that opens behind a directive and does not close takes the rest with it. -/
theorem scan_unclosed {sym : Str} {ts : List Token} {nstr : Str} {error : Bool}
    (h : WellFormed (.dir sym none :: .lit 123 :: ts)) :
    scan full nstr (render (.dir sym none :: .lit 123 :: ts)) ≠
      some (nstr.map .char ++ meaning (.dir sym none :: .lit 123 :: ts), error) := by
  intro hscan
  have hsymbol := wellFormed_symbol h
  have hclosed : 125 ∉ render ts := by
    intro hmem
    exact h.2.1.2 rfl (List.mem_cons_of_mem _ hmem)
  have hread : readSymbol full [] (sym ++ 123 :: render ts) =
      readFmt full sym (render ts) [] := by
    have hskip := @readFmt_append full _ hclosed sym [] []
    rw [List.append_nil, List.nil_append] at hskip
    rw [readSymbol_append hsymbol.2, readSymbol, if_pos rfl, List.nil_append, hskip]
  have hrender : render (.dir sym none :: .lit 123 :: ts) = 37 :: (sym ++ 123 :: render ts) := rfl
  rw [hrender] at hscan
  cases full with
  | true =>
      rw [scan_dir true nstr (head_symbol hsymbol _), hread] at hscan
      cases hscan
  | false =>
      have hread : readSymbol false [] (sym ++ 123 :: render ts) = some (sym, [], []) := hread
      obtain ⟨out', hout', hout⟩ := (scan_dir_eq_some (head_symbol hsymbol _) hread).mp hscan
      rw [scan_nil] at hout'
      have hprinted := congrArg Prod.fst hout
      rw [view_directiveEntry hsymbol.1, ← Option.some.inj hout'] at hprinted
      have hlength := congrArg List.length hprinted
      simp [join, view, meaning_cons, Token.meaning] at hlength

/-- The keys of `format_items` are single letters. -/
theorem length_of_formatItems {s : Str} {i : ItemClass} (h : formatItems s = some i) :
    s.length = 1 := by
  unfold formatItems at h
  split at h
  all_goals first
    | rfl
    | cases h

/-- A brace that closes behind a directive becomes a part of its symbol. -/
theorem scan_closing {sym : Str} {ts : List Token} {nstr : Str} {error : Bool}
    (h : WellFormed (.dir sym none :: .lit 125 :: ts)) :
    scan full nstr (render (.dir sym none :: .lit 125 :: ts)) ≠
      some (nstr.map .char ++ meaning (.dir sym none :: .lit 125 :: ts), error) := by
  intro hscan
  have hsymbol := wellFormed_symbol h
  have hrender : render (.dir sym none :: .lit 125 :: ts) = 37 :: (sym ++ 125 :: render ts) := rfl
  have hread : readSymbol full [] (sym ++ 125 :: render ts) =
      readSymbol full (sym ++ [125]) (render ts) := by
    rw [readSymbol_append hsymbol.2, readSymbol, if_neg (by decide), if_pos (Or.inl rfl),
      List.nil_append]
  rw [hrender] at hscan
  cases hr : readSymbol full (sym ++ [125]) (render ts) with
  | none =>
      rw [scan_dir full nstr (head_symbol hsymbol _), hread, hr] at hscan
      cases hscan
  | some r =>
      obtain ⟨more, hmore⟩ := readSymbol_begins _ hr
      rw [hr] at hread
      obtain ⟨out', -, hout⟩ := (scan_dir_eq_some (head_symbol hsymbol _) hread).mp hscan
      have hlong : formatItems r.1 = none := by
        cases hitem : formatItems r.1 with
        | none => rfl
        | some i =>
            have hone := length_of_formatItems hitem
            have hpos : 0 < sym.length := List.length_pos_iff.mpr hsymbol.1
            rw [hmore] at hone
            simp at hone
            omega
      have hne : r.1 ≠ [] := by
        rw [hmore]
        simp
      have hprinted := congrArg Prod.fst hout
      rw [view_directiveEntry hne, meaning_of_unknown hlong, hmore] at hprinted
      simp only [join, List.append_cancel_left_eq, meaning_cons] at hprinted
      cases hitem : formatItems sym with
      | some i =>
          rw [meaning_of_known hitem] at hprinted
          cases (List.cons.inj hprinted).1
      | none =>
          -- the error texts differ behind `sym`
          rw [meaning_of_unknown hitem] at hprinted
          simp [errorText, Token.meaning] at hprinted

/-- A character joins the text before it. -/
theorem meaning_lit (nstr : Str) (c : UInt8) (ts : List Token) :
    nstr.map .char ++ meaning (.lit c :: ts) = (nstr ++ [c]).map .char ++ meaning ts := by
  simp [meaning_cons, Token.meaning]

/-- An escaped percent sign joins the text before it. -/
theorem meaning_esc (nstr : Str) (ts : List Token) :
    nstr.map .char ++ meaning (.esc :: ts) = (nstr ++ [37]).map .char ++ meaning ts := by
  simp [meaning_cons, Token.meaning]

section Kept

variable {ts : List Token} {nstr : Str} {error : Bool}

/-- What an escape that is kept has behind it. -/
theorem behind_esc (h : WellFormed ts) (hscan : scan full nstr (render (.esc :: ts)) =
    some (nstr.map .char ++ meaning (.esc :: ts), error)) :
    ts = [] ∨ ∃ c ts', ts = .lit c :: ts' ∧ Plain c := by
  have hrender : render (.esc :: ts) = 37 :: 37 :: render ts := rfl
  rw [hrender, scan_esc, meaning_esc] at hscan
  have hhead : (render ts).head? ≠ some 37 := by
    intro hhead
    obtain ⟨rest, hrest⟩ := List.head?_eq_some_iff.mp hhead
    rw [hrest, scan_esc, ← hrest] at hscan
    exact scan_extra_percent h hhead (nstr ++ [37]) 0 error hscan
  cases ts with
  | nil => exact Or.inl rfl
  | cons t ts =>
      cases t with
      | esc => exact absurd rfl hhead
      | dir sym fmt =>
          cases fmt with
          | none => exact absurd rfl hhead
          | some fmt => exact absurd rfl hhead
      | lit c =>
          refine Or.inr ⟨c, ts, rfl, ?_⟩
          by_contra hnot
          by_cases hopen : c = 123
          · subst hopen
            exact scan_swallowed (wellFormed_tail h) _ error hscan
          · refine scan_taken ?_ hscan
            by_contra htaken
            simp only [not_or, Bool.not_eq_true] at htaken
            exact hnot ⟨htaken.2, hopen, htaken.1⟩

/-- The tokens behind an escape print what they mean. -/
theorem scan_behind_esc {c : UInt8} (h : WellFormed (.lit c :: ts)) (hplain : Plain c)
    (hscan : scan full nstr (render (.esc :: .lit c :: ts)) =
      some (nstr.map .char ++ meaning (.esc :: .lit c :: ts), error)) :
    ∃ error', scan full [] (render (.lit c :: ts)) =
      some (List.map .char [] ++ meaning (.lit c :: ts), error') := by
  have hrender : render (.lit c :: ts) = c :: render ts := rfl
  have hhead : (render (.lit c :: ts)).head? ≠ some 37 := by
    rw [hrender]
    exact fun heq => h.1 (Option.some.inj heq)
  have hstop : ∀ d, (render (.lit c :: ts)).head? = some d → Plain d := by
    intro d hd
    rw [← Option.some.inj hd]
    exact hplain
  obtain ⟨⟨printed, error'⟩, hout', hout⟩ := (scan_esc_iff hhead hstop).mp hscan
  have hprinted := congrArg Prod.fst hout
  simp only [join, meaning_esc, List.append_cancel_left_eq] at hprinted
  obtain rfl : printed = meaning (.lit c :: ts) := hprinted
  exact ⟨error', hout'⟩

/-- What a directive that is kept has behind it. -/
theorem behind_dir {sym : Str} {fmt : Option Str} (h : WellFormed (.dir sym fmt :: ts))
    (hscan : scan full nstr (render (.dir sym fmt :: ts)) =
      some (nstr.map .char ++ meaning (.dir sym fmt :: ts), error)) :
    fmt = none → ∀ c ts', ts = .lit c :: ts' → c ≠ 123 ∧ c ≠ 125 := by
  rintro rfl c ts' rfl
  constructor
  · rintro rfl
    exact scan_unclosed h hscan
  · rintro rfl
    exact scan_closing h hscan

/-- The tokens behind a directive print what they mean. -/
theorem scan_behind_dir {sym : Str} {fmt : Option Str} (h : WellFormed (.dir sym fmt :: ts))
    (hscan : scan full nstr (render (.dir sym fmt :: ts)) =
      some (nstr.map .char ++ meaning (.dir sym fmt :: ts), error)) :
    ∃ error', scan full [] (render ts) = some (List.map .char [] ++ meaning ts, error') := by
  have hplain : fmt = none → ∀ c, (render ts).head? = some c → Plain c := by
    rintro rfl
    refine head_render_plain fun c ts' heq => ⟨?_, behind_dir h hscan rfl c ts' heq⟩
    exact h.2.1.1 c (by rw [heq]; rfl)
  obtain ⟨⟨printed, error'⟩, hout', hout⟩ := (scan_dir_iff h hplain).mp hscan
  have hprinted := congrArg Prod.fst hout
  simp only [join, meaning_cons, List.append_assoc, List.append_cancel_left_eq] at hprinted
  obtain rfl : printed = meaning ts := hprinted
  exact ⟨error', hout'⟩

end Kept

/-- What prints its meaning is regular. -/
theorem regular_of_scan {ts : List Token} (h : WellFormed ts) {nstr : Str} {error : Bool}
    (hscan : scan full nstr (render ts) = some (nstr.map .char ++ meaning ts, error)) :
    Regular ts ∧ (ts = [] → nstr = []) := by
  induction ts generalizing nstr error with
  | nil =>
      change scan full nstr [] = some (nstr.map .char ++ [], error) at hscan
      rw [scan_nil, List.append_nil] at hscan
      have hnothing := congrArg Prod.fst (Option.some.inj hscan)
      exact ⟨trivial, fun _ => List.map_eq_nil_iff.mp hnothing.symm⟩
  | cons t ts ih =>
      refine ⟨?_, nofun⟩
      have htail := wellFormed_tail h
      cases t with
      | lit c =>
          have hrender : render (.lit c :: ts) = c :: render ts := rfl
          rw [hrender, scan_lit full nstr h.1, meaning_lit] at hscan
          obtain ⟨hregular, hpending⟩ := ih htail hscan
          exact ⟨fun hnil => by simpa using hpending hnil, hregular⟩
      | esc =>
          rw [regular_esc_iff]
          have hbehind := behind_esc htail hscan
          refine ⟨hbehind, ?_⟩
          rcases hbehind with rfl | ⟨c, ts', rfl, hplain⟩
          · trivial
          · obtain ⟨error', hrest⟩ := scan_behind_esc htail hplain hscan
            exact (ih htail hrest).1
      | dir sym fmt =>
          rw [regular_dir_iff]
          obtain ⟨error', hrest⟩ := scan_behind_dir h hscan
          exact ⟨behind_dir h hscan, (ih htail hrest).1⟩

/-- **Which patterns are kept.**  For every pattern that is not empty and that an `int`
can index, `init` ends within the string with items that print what the tokens mean, and
with `m_error` for an unknown symbol, exactly when the pattern is regular. -/
theorem keeps_iff_regular {ts : List Token} (hne : ts ≠ []) (h : WellFormed ts)
    (hshort : Short (render ts)) : Keeps ts ↔ Regular ts := by
  rw [keeps_iff_scan hshort]
  constructor
  · intro hscan
    exact (regular_of_scan h hscan).1
  · intro hregular
    exact scan_of_regular h hregular [] fun hnil => absurd hnil hne

/-- `%m%n` is kept. -/
theorem message_line_kept :
    Keeps [.dir [109] none, .dir [110] none] := by
  have hwell : WellFormed [.dir [109] none, .dir [110] none] :=
    ⟨⟨List.cons_ne_nil _ _, List.forall_mem_singleton.mpr rfl⟩,
      ⟨fun c hc => by cases hc; rfl, fun hc => by cases hc⟩,
      ⟨List.cons_ne_nil _ _, List.forall_mem_singleton.mpr rfl⟩, ⟨nofun, nofun⟩, trivial⟩
  exact (keeps_iff_regular (List.cons_ne_nil _ _) hwell (by decide)).mpr trivial

/-- The space behind the directive of `%m ` is lost. -/
theorem text_at_end_lost : ¬ ∀ ts : List Token, ts ≠ [] → WellFormed ts → Keeps ts := by
  intro hall
  let ts : List Token := [.dir [109] none, .lit 32]
  have hwell : WellFormed ts :=
    ⟨⟨List.cons_ne_nil _ _, List.forall_mem_singleton.mpr rfl⟩,
      ⟨fun c hc => by cases hc; rfl, fun hc => by cases hc⟩, by decide, trivial⟩
  have hkeeps := hall ts (List.cons_ne_nil _ _) hwell
  have hscan := (@keeps_iff_scan ts (by decide)).mp hkeeps
  exact (regular_of_scan hwell hscan).1.2.1 rfl

end LogPattern

end Agent
