import GServer.HttpTable

/-!
# The phases of a request

The states of the machine fall into phases by the part of a request they read.
`phaseRows` is a small table over the phases, looser than the generated one: it does not
know the forms of an authority.  `requestTable_refines` says that every transition of the
generated table is one of this table, so what the phases preserve the machine preserves.
-/

namespace Agent

open RangeTables

namespace Http

/-- The part of a request that is being read; `method` and `version` count its bytes. -/
inductive Phase
  | start
  | method (k : Nat)
  | target
  | scheme
  | schemeEnd
  | path
  | pathEscape
  | pathHex
  | queryStart
  | query
  | queryEscape
  | queryHex
  | fragmentStart
  | fragment
  | fragmentEscape
  | fragmentHex
  | version (k : Nat)
  | line
  | name
  | blanks
  | value
  | lineEnd
  | headEnd
  | xmlStart
  | xmlName
  | xmlBody
  | xmlClose
  | jsonPath
  | jsonBrace
  | jsonBody
  | jsonClose
deriving DecidableEq

/-- The bytes that stand for themselves in a path or an authority. -/
def targetChar : ByteClass :=
  [⟨2, 6⟩, ⟨33, 33⟩, ⟨36, 36⟩, ⟨38, 59⟩, ⟨61, 61⟩, ⟨64, 91⟩, ⟨93, 95⟩, ⟨97, 123⟩,
    ⟨125, 126⟩, ⟨128, 255⟩]

/-- `queryChar` with `moreDelims`. -/
def relaxedQueryChar : ByteClass :=
  [⟨33, 33⟩, ⟨36, 36⟩, ⟨38, 59⟩, ⟨61, 61⟩, ⟨63, 90⟩, ⟨94, 95⟩, ⟨97, 123⟩, ⟨125, 126⟩,
    ⟨128, 255⟩]

/-- `targetChar` or the percent sign. -/
def jsonPathChar : ByteClass :=
  ⟨37, 37⟩ :: targetChar

/-- What comes before the minor version. -/
def versionPrefix : List Nat := [72, 84, 84, 80, 47, 49, 46]

/-- A row of the table of phases. -/
def go (c : ByteClass) (actions : List Action) (ph : Phase) : Row (Move Phase) :=
  ⟨c, .goto actions ph⟩

/-- A row that ends the request. -/
def finish (n : Nat) (actions : List Action) : Row (Move Phase) :=
  ⟨[⟨n, n⟩], .done actions⟩

/-- The rows of a path, `before` being performed first. -/
def pathRows (before : List Action) : List (Row (Move Phase)) :=
  [go [⟨32, 32⟩] (before ++ [.requestPath, .requestUri]) (.version 0),
    go [⟨35, 35⟩] (before ++ [.requestPath, .requestUri]) .fragmentStart,
    go [⟨63, 63⟩] (before ++ [.requestPath]) .queryStart,
    go [⟨37, 37⟩] before .pathEscape, go targetChar before .path]

def queryRows (before : List Action) : List (Row (Move Phase)) :=
  [go [⟨32, 32⟩] (before ++ [.queryString, .requestUri]) (.version 0),
    go [⟨35, 35⟩] (before ++ [.queryString, .requestUri]) .fragmentStart,
    go [⟨37, 37⟩] before .queryEscape, go relaxedQueryChar before .query]

def fragmentRows (before : List Action) : List (Row (Move Phase)) :=
  [go [⟨32, 32⟩] (before ++ [.fragment]) (.version 0),
    go [⟨37, 37⟩] before .fragmentEscape, go relaxedQueryChar before .fragment]

/-- The end of a field. -/
def fieldRows (before : List Action) : List (Row (Move Phase)) :=
  [go [⟨10, 10⟩] (before ++ [.writeValue]) .line,
    go [⟨13, 13⟩] (before ++ [.writeValue]) .lineEnd]

/-- The rows of a phase. -/
def phaseRows : Phase → List (Row (Move Phase))
  | .start =>
      [go upperDigit [.mark] (.method 1), go [⟨60, 60⟩] [.mark] .xmlStart,
        go [⟨64, 64⟩] [.mark] .jsonPath]
  | .method k =>
      go [⟨32, 32⟩] [.requestMethod] .target ::
        if k < 20 then [go upperDigit [] (.method (k + 1))] else []
  | .target => go alpha [.mark] .scheme :: pathRows [.mark]
  | .scheme => go schemeChar [] .scheme :: go [⟨58, 58⟩] [] .schemeEnd :: pathRows []
  | .schemeEnd => pathRows [.mark]
  | .path => pathRows []
  | .pathEscape => [go xdigit [] .pathHex]
  | .pathHex => [go xdigit [] .path]
  | .queryStart => queryRows [.startQuery]
  | .query => queryRows []
  | .queryEscape => [go xdigit [] .queryHex]
  | .queryHex => [go xdigit [] .query]
  | .fragmentStart => fragmentRows [.mark]
  | .fragment => fragmentRows []
  | .fragmentEscape => [go xdigit [] .fragmentHex]
  | .fragmentHex => [go xdigit [] .fragment]
  | .version k =>
      match versionPrefix[k]? with
      | some n => [go [⟨n, n⟩] (if k = 0 then [.mark] else []) (.version (k + 1))]
      | none =>
          if k = 7 then [go [⟨48, 49⟩] [] (.version 8)]
          else [go [⟨10, 10⟩] [.httpVersion] .line, go [⟨13, 13⟩] [.httpVersion] .lineEnd]
  | .line =>
      [go tokenStart [.startField] .name, finish 10 [.startField],
        go [⟨13, 13⟩] [.startField] .headEnd]
  | .name => [go token [] .name, go [⟨58, 58⟩] [.writeField] .blanks]
  | .blanks =>
      go valueStart [.startValue] .value :: go [⟨9, 9⟩, ⟨32, 32⟩] [.startValue] .blanks ::
        fieldRows [.startValue]
  | .value => go valueChar [] .value :: fieldRows []
  | .lineEnd => [go [⟨10, 10⟩] [] .line]
  | .headEnd =>
      [go tokenAfterCR [] .name, finish 10 [], go [⟨58, 58⟩] [.writeField] .blanks]
  | .xmlStart => [go xmlName [] .xmlName]
  | .xmlName =>
      [go xmlName [] .xmlName,
        go [⟨9, 13⟩, ⟨32, 32⟩, ⟨47, 47⟩, ⟨62, 62⟩] [.requestPath] .xmlBody]
  | .xmlBody => [go [⟨0, 61⟩, ⟨63, 255⟩] [] .xmlBody, go [⟨62, 62⟩] [] .xmlClose]
  | .xmlClose =>
      [finish 0 [], go [⟨1, 61⟩, ⟨63, 255⟩] [] .xmlBody, go [⟨62, 62⟩] [] .xmlClose]
  | .jsonPath => [go jsonPathChar [] .jsonPath, go [⟨32, 32⟩] [.requestPath] .jsonBrace]
  | .jsonBrace => [go [⟨123, 123⟩] [.mark] .jsonBody]
  | .jsonBody => [go [⟨0, 124⟩, ⟨126, 255⟩] [] .jsonBody, go [⟨125, 125⟩] [] .jsonClose]
  | .jsonClose =>
      [finish 0 [], go [⟨1, 124⟩, ⟨126, 255⟩] [] .jsonBody, go [⟨125, 125⟩] [] .jsonClose]

/-- The phase of a state of the generated code. -/
def phaseOf (s : Nat) : Phase :=
  if s = 1 then .start
  else if s = 2 then .method 1
  else if s = 3 then .target
  else if s ≤ 12 then .version (s - 4)
  else if s = 13 then .line
  else if s = 14 then .name
  else if s = 15 then .blanks
  else if s = 16 then .value
  else if s = 17 then .lineEnd
  else if s = 18 then .headEnd
  else if s = 20 then .fragmentStart
  else if s = 21 then .fragment
  else if s = 22 then .fragmentEscape
  else if s = 23 then .fragmentHex
  else if s = 29 then .queryStart
  else if s = 30 then .query
  else if s = 31 then .queryEscape
  else if s = 32 then .queryHex
  else if s = 173 then .scheme
  else if s = 174 then .schemeEnd
  else if s < 173 then
    if s = 24 ∨ s = 27 ∨ s = 36 ∨ s = 40 ∨ s = 44 then .pathEscape
    else if s = 25 ∨ s = 28 ∨ s = 37 ∨ s = 41 ∨ s = 45 then .pathHex
    else .path
  else if s ≤ 193 then .method (s - 173)
  else if s = 194 then .xmlStart
  else if s = 195 then .xmlName
  else if s = 196 then .xmlBody
  else if s = 197 then .xmlClose
  else if s = 199 then .jsonBrace
  else if s = 200 then .jsonBody
  else if s = 201 then .jsonClose
  else .jsonPath

/-- A transition with its target seen through `f`. -/
def Move.map {σ τ : Type} (f : σ → τ) : Move σ → Move τ
  | .error => .error
  | .goto actions s => .goto actions (f s)
  | .done actions => .done actions

/-! ## The refinement -/

/-- Every row of the strict table is a row of its phase. -/
theorem requestTable_refines :
    (requestTable.all fun e =>
      refines (Move.map phaseOf) e.2 (phaseRows (phaseOf e.1))) = true := by
  decide +kernel

/-- Every row that `uri_relaxed` adds is a row of its phase. -/
theorem relaxedTable_refines :
    (relaxedTable.all fun e =>
      refines (Move.map phaseOf) [bytes moreDelims e.2] (phaseRows (phaseOf e.1))) = true := by
  decide +kernel

/-- **The rows of a state refine those of its phase.** -/
theorem requestRows_refines (uriRelaxed : Bool) (s : Nat) :
    refines (Move.map phaseOf) (requestRows uriRelaxed s) (phaseRows (phaseOf s)) = true := by
  refine refines_append ?_ ?_
  · cases hfind : requestTable.find? fun e => e.1 == s with
    | none => rfl
    | some e =>
        have hrow := List.all_eq_true.mp requestTable_refines e (List.mem_of_find?_eq_some hfind)
        have hs : e.1 = s := beq_iff_eq.mp
          (List.find?_some (p := fun e : Nat × List (Row (Move Nat)) => e.1 == s) hfind)
        rwa [hs] at hrow
  · cases uriRelaxed with
    | false => rfl
    | true =>
        refine List.all_eq_true.mpr fun row hrow => ?_
        obtain ⟨e, he, rfl⟩ := List.mem_map.mp hrow
        obtain ⟨hmem, hs⟩ := List.mem_filter.mp he
        have hone := List.all_eq_true.mp relaxedTable_refines e hmem
        rw [beq_iff_eq.mp hs] at hone
        exact List.all_eq_true.mp hone _ List.mem_cons_self

/-- What the machine does with a byte is allowed in the phase. -/
theorem requestTokenizer_allows {uriRelaxed : Bool} {s : Nat} {b : UInt8} {m : Move Nat}
    (h : (requestTokenizer uriRelaxed).move s b = m) (hne : m ≠ .error) :
    Allows (phaseRows (phaseOf s)) b.toNat (m.map phaseOf) := by
  have hmove : (lookup (requestRows uriRelaxed s) b.toNat).getD .error = m := h
  cases hl : lookup (requestRows uriRelaxed s) b.toNat with
  | none =>
      rw [hl] at hmove
      exact absurd hmove.symm hne
  | some m' =>
      rw [hl, Option.getD_some] at hmove
      exact hmove ▸ allows_of_lookup (requestRows_refines uriRelaxed s) hl

end Http

end Agent
