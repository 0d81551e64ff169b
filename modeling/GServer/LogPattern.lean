import GServer.Http
import Mathlib.Data.List.Basic

/-!
# Log patterns

`LogFormatter::init` scans the pattern with the positions `i`, a `size_t`, and `m`, an
`int`, and then makes the items.  A position outside of the string and its terminator, a
`substr` behind the end and an `int` overflow have no result.

A pattern is written from tokens: literal bytes, escapes and directives.
`LogPattern.Keeps` says that the items print what the tokens say.
-/

namespace Agent

open Http (Str)

namespace LogPattern

/-! ## Integers and strings -/

/-- A `size_t` as an `int`. -/
def toInt (n : Nat) : Int :=
  Int.bmod n 4294967296

/-- An `int` as a `size_t`. -/
def toSize (m : Int) : Nat :=
  (m % 18446744073709551616).toNat

/-- `m + 1` for an `int`. -/
def increment (m : Int) : Option Int :=
  if m = 2147483647 then none else some (m + 1)

/-- `isalnum` in the C locale. -/
def isalnum (c : UInt8) : Bool :=
  (48 ≤ c && c ≤ 57) || (65 ≤ c && c ≤ 90) || (97 ≤ c && c ≤ 122)

/-- `s[m]`, with the terminator behind the last byte. -/
def charAt (s : Str) (m : Int) : Option UInt8 :=
  if 0 ≤ m then (s ++ [0])[m.toNat]? else none

/-- `s.substr(pos, count)`. -/
def substr (s : Str) (pos count : Int) : Option Str :=
  if s.length < toSize pos then none else some ((s.drop (toSize pos)).take (toSize count))

/-! ## The scanner -/

/-- The variables of the inner loop. -/
structure Scan where
  symbol : Str
  fmt : Str
  fmt_status : Bool
  fmt_begin : Int

/-- The second test of the loop: a brace opens. -/
def openBrace (m_pattern : Str) (i : Nat) (m : Int) (c : UInt8) (s : Scan) : Option Scan :=
  if c = 123 ∧ s.fmt_status = false then
    (substr m_pattern (i + 1) (m - i - 1)).map fun symbol =>
      { s with symbol := symbol, fmt_status := true, fmt_begin := m + 1 }
  else some s

/-- `while(m <= n)`, for the directive at `i`. -/
def readDirective (m_pattern : Str) (i : Nat) (n m : Int) (s : Scan) : Option (Int × Scan) :=
  if _hm : m ≤ n then
    match charAt m_pattern m with
    | none => none
    | some c =>
        if (c ≠ 123 ∧ c ≠ 125 ∧ isalnum c = false) ∧ s.fmt_status = false then
          (substr m_pattern (i + 1) (m - i - 1)).map fun symbol => (m, { s with symbol := symbol })
        else
          match openBrace m_pattern i m c s, increment m with
          | some s, some next =>
              if c = 125 ∧ s.fmt_status = true then
                (substr m_pattern s.fmt_begin (m - s.fmt_begin)).map fun fmt =>
                  (next, { s with fmt := fmt, fmt_status := false, fmt_begin := 0 })
              else readDirective m_pattern i n (m + 1) s
          | _, _ => none
  else some (m, s)
termination_by (n + 1 - m).toNat

/-- `<symbol, format, type>`. -/
structure Entry where
  symbol : Str
  fmt : Str
  type : Nat
deriving DecidableEq

/-- The entry of a literal, if there is one. -/
def literalEntry (nstr : Str) : List Entry :=
  if nstr = [] then [] else [⟨nstr, [], 2⟩]

/-- The entry of a directive, if it has a symbol. -/
def directiveEntry (symbol fmt : Str) : List Entry :=
  if symbol = [] then [] else if fmt = [] then [⟨symbol, [], 0⟩] else [⟨symbol, fmt, 1⟩]

/-- The variables of the outer loop, or the entries where it ends. -/
inductive Turn
  | done (vec : List Entry)
  | next (i : Nat) (nstr : Str) (vec : List Entry)

/-- One turn of `for(size_t i = 0; i < m_pattern.size();)`.  What is left in `nstr` at
the end is not pushed. -/
def turn (m_pattern : Str) (i : Nat) (nstr : Str) (vec : List Entry) : Option Turn :=
  match m_pattern[i]? with
  | none => some (.done vec)
  | some c =>
      if c ≠ 37 then some (.next (i + 1) (nstr ++ [c]) vec)
      else if m_pattern[i + 1]? = some 37 then some (.next (i + 1) (nstr ++ [37]) vec)
      else
        (readDirective m_pattern i (toInt m_pattern.length) (toInt (i + 1))
            ⟨[], [], false, 0⟩).map fun (m, s) =>
          .next (toSize m) [] (vec ++ literalEntry nstr ++ directiveEntry s.symbol s.fmt)

/-- The loop, for so many turns. -/
def scanPattern (m_pattern : Str) : Nat → Nat → Str → List Entry → Option (List Entry)
  | 0, _, _, _ => none
  | turns + 1, i, nstr, vec =>
      match turn m_pattern i nstr vec with
      | none => none
      | some (.done vec) => some vec
      | some (.next i nstr vec) => scanPattern m_pattern turns i nstr vec

/-! ## The items -/

/-- The classes of `format_items`. -/
inductive ItemClass
  | MessageFormatItem
  | LevelFormatItem
  | ElapseFormatItem
  | LoggerNameFormatItem
  | ThreadIdFormatItem
  | ThreadNameFormatItem
  | CoroutineIdFormatItem
  | DateTimeFormatItem
  | FilenameFormatItem
  | LineFormatItem
  | NewLineFormatItem
  | TabFormatItem
deriving DecidableEq

/-- `format_items.find`; the keys are single letters. -/
def formatItems : Str → Option ItemClass
  | [109] => some .MessageFormatItem
  | [112] => some .LevelFormatItem
  | [114] => some .ElapseFormatItem
  | [99] => some .LoggerNameFormatItem
  | [116] => some .ThreadIdFormatItem
  | [78] => some .ThreadNameFormatItem
  | [67] => some .CoroutineIdFormatItem
  | [100] => some .DateTimeFormatItem
  | [102] => some .FilenameFormatItem
  | [108] => some .LineFormatItem
  | [110] => some .NewLineFormatItem
  | [84] => some .TabFormatItem
  | _ => none

/-- An item: a string, or one of a class with its argument. -/
inductive FormatItem
  | StringFormatItem (m_string : Str)
  | ofClass (c : ItemClass) (fmt : Str)
deriving DecidableEq

/-- `"<<error_format %"` and `">>"` around an unknown symbol. -/
def errorText (symbol : Str) : Str :=
  [60, 60, 101, 114, 114, 111, 114, 95, 102, 111, 114, 109, 97, 116, 32, 37] ++ symbol ++ [62, 62]

/-- The item of an entry. -/
def Entry.item (e : Entry) : FormatItem :=
  if e.type = 2 then .StringFormatItem e.symbol
  else
    match formatItems e.symbol with
    | none => .StringFormatItem (errorText e.symbol)
    | some c => .ofClass c e.fmt

/-- Whether an entry sets `m_error`. -/
def Entry.isError (e : Entry) : Bool :=
  e.type ≠ 2 && (formatItems e.symbol).isNone

/-- `LogFormatter`, after `init`. -/
structure LogFormatter where
  m_items : List FormatItem
  m_error : Bool
deriving DecidableEq

/-- `LogFormatter::init` for a pattern that is not empty, for so many turns. -/
def init (turns : Nat) (m_pattern : Str) : Option LogFormatter :=
  (scanPattern m_pattern turns 0 [] []).map fun vec => ⟨vec.map Entry.item, vec.any Entry.isError⟩

/-! ## What is printed -/

/-- A byte of a string, or what an item makes of an event. -/
inductive Printed
  | char (c : UInt8)
  | item (c : ItemClass) (fmt : Str)
deriving DecidableEq

def FormatItem.print : FormatItem → List Printed
  | StringFormatItem m_string => m_string.map .char
  | ofClass c fmt => [.item c fmt]

/-- `LogFormatter::format`: the items in their order. -/
def LogFormatter.format (f : LogFormatter) : List Printed :=
  f.m_items.flatMap FormatItem.print

/-! ## Patterns -/

/-- A literal byte, an escape or a directive, perhaps with a format in braces. -/
inductive Token
  | lit (c : UInt8)
  | esc
  | dir (sym : Str) (fmt : Option Str)
deriving DecidableEq

/-- The bytes of a token. -/
def Token.render : Token → Str
  | lit c => [c]
  | esc => [37, 37]
  | dir sym none => 37 :: sym
  | dir sym (some fmt) => 37 :: sym ++ 123 :: fmt ++ [125]

/-- The pattern. -/
def render (ts : List Token) : Str :=
  ts.flatMap Token.render

/-- What a token is to print: the error text for an unknown symbol. -/
def Token.meaning : Token → List Printed
  | lit c => [.char c]
  | esc => [.char 37]
  | dir sym fmt =>
      match formatItems sym with
      | none => (errorText sym).map .char
      | some c => [.item c (fmt.getD [])]

def meaning (ts : List Token) : List Printed :=
  ts.flatMap Token.meaning

/-- A directive with an unknown symbol. -/
def Token.isError : Token → Bool
  | lit _ => false
  | esc => false
  | dir sym _ => (formatItems sym).isNone

/-- What may stand behind a directive without a format: nothing that its symbol would
take in, nor a brace that makes a format of what follows. -/
def Ends (rest : Str) : Prop :=
  (∀ c, rest.head? = some c → isalnum c = false) ∧ (rest.head? = some 123 → 125 ∉ rest)

/-- The tokens are those of their pattern. -/
def WellFormed : List Token → Prop
  | [] => True
  | .lit c :: ts => c ≠ 37 ∧ WellFormed ts
  | .esc :: ts => WellFormed ts
  | .dir sym none :: ts =>
      (sym ≠ [] ∧ ∀ c ∈ sym, isalnum c = true) ∧ Ends (render ts) ∧ WellFormed ts
  | .dir sym (some fmt) :: ts =>
      (sym ≠ [] ∧ ∀ c ∈ sym, isalnum c = true) ∧ 125 ∉ fmt ∧ WellFormed ts

/-- `init` terminates within the string, the items print what the tokens mean, and
`m_error` is set for an unknown symbol. -/
def Keeps (ts : List Token) : Prop :=
  ∃ turns f, init turns (render ts) = some f ∧ f.format = meaning ts ∧
    f.m_error = ts.any Token.isError

/-- The byte can stand behind an escape, whose second `%` begins a directive. -/
def Plain (c : UInt8) : Prop :=
  isalnum c = false ∧ c ≠ 123 ∧ c ≠ 125

instance (c : UInt8) : Decidable (Plain c) :=
  inferInstanceAs (Decidable (_ ∧ _))

/-- Text is followed by an escape or a directive in the end, escapes by nothing or by a
byte that is neither alphanumeric nor a brace, and directives without a format not by a
brace. -/
def Regular : List Token → Prop
  | [] => True
  | .lit _ :: ts => ts ≠ [] ∧ Regular ts
  | .esc :: [] => True
  | .esc :: .lit c :: ts => Plain c ∧ Regular (.lit c :: ts)
  | .esc :: .esc :: _ => False
  | .esc :: .dir _ _ :: _ => False
  | .dir _ none :: .lit c :: ts => (c ≠ 123 ∧ c ≠ 125) ∧ Regular (.lit c :: ts)
  | .dir _ _ :: ts => Regular ts

end LogPattern

end Agent
