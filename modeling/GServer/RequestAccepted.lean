import GServer.RequestMachine

/-!
# What the request machine accepts

The other direction: a head whose target is a path, with or without a query and a
fragment, is taken to its last byte, and the callbacks are those of its parts.  The
header fields are those of `RequestHead` without restriction.  A path must not begin
with two slashes: the machine takes what follows them for an authority.

`Reaches` is one stretch of a run; stretches are put together with `Reaches.trans`.
-/

namespace Agent

open RangeTables

namespace Http

/-! ## Stretches of a run -/

/-- The run with earlier callbacks before its own. -/
def Executed.after {σ : Type} (e : Executed σ) (cbs : List Callback) : Executed σ :=
  { e with callbacks := cbs ++ e.callbacks }

/-- After `a`, the bytes `bs` lead from `s` to `s'`, whatever follows them. -/
def Reaches {σ : Type} (tok : Tokenizer σ) (a : Str) (s : σ) (r : Registers) (bs : Str) (s' : σ)
    (r' : Registers) (cbs : List Callback) : Prop :=
  ∀ rest, execLoop tok (a ++ bs ++ rest) (bs ++ rest) a.length s r =
    (execLoop tok (a ++ bs ++ rest) rest (a ++ bs).length s' r').after cbs

section Stretches

variable {σ : Type} {tok : Tokenizer σ} {a bs bs' : Str} {s s₁ s₂ : σ} {r r₁ r₂ : Registers}
  {cbs cbs' : List Callback}

/-- Nothing is read. -/
theorem Reaches.refl : Reaches tok a s r [] s r [] := by
  intro rest
  rw [List.append_nil]
  rfl

/-- Two stretches are read one after the other. -/
theorem Reaches.trans (h : Reaches tok a s r bs s₁ r₁ cbs)
    (h' : Reaches tok (a ++ bs) s₁ r₁ bs' s₂ r₂ cbs') :
    Reaches tok a s r (bs ++ bs') s₂ r₂ (cbs ++ cbs') := by
  intro rest
  have hfirst := h (bs' ++ rest)
  have hsecond := h' rest
  simp only [List.append_assoc] at hfirst hsecond ⊢
  rw [hfirst, hsecond]
  simp only [Executed.after, List.append_assoc]

/-- One byte is read. -/
theorem Reaches.byte {b : UInt8} {actions : List Action}
    (hmove : tok.move s b = .goto actions s₁)
    (hperform : ∀ rest, perform (a ++ b :: rest) a.length actions r = (r₁, cbs)) :
    Reaches tok a s r [b] s₁ r₁ cbs := by
  intro rest
  rw [List.append_assoc, List.singleton_append, execLoop, hmove]
  simp only [hperform, List.length_append]
  rfl

/-- A byte without actions. -/
theorem Reaches.silent {b : UInt8} (hmove : tok.move s b = .goto [] s₁) :
    Reaches tok a s r [b] s₁ r [] :=
  .byte hmove fun _ => rfl

/-- Bytes that keep the state. -/
theorem Reaches.loop (h : ∀ b ∈ bs, tok.move s b = .goto [] s) : Reaches tok a s r bs s r [] := by
  induction bs generalizing a with
  | nil => exact .refl
  | cons b bs ih =>
      have hhead : Reaches tok a s r [b] s r [] := .silent (h b List.mem_cons_self)
      exact hhead.trans (ih fun c hc => h c (List.mem_cons_of_mem b hc))

end Stretches

/-- A state that goes on with bytes of a class and with percent escapes. -/
structure EscapeLoop {σ : Type} (tok : Tokenizer σ) (c : ByteClass) (s e₁ e₂ : σ) : Prop where
  plain : ∀ b : UInt8, c.has b.toNat = true → tok.move s b = .goto [] s
  escape : tok.move s 37 = .goto [] e₁
  high : ∀ b : UInt8, xdigit.has b.toNat = true → tok.move e₁ b = .goto [] e₂
  low : ∀ b : UInt8, xdigit.has b.toNat = true → tok.move e₂ b = .goto [] s

/-- A state that begins such a part with `actions`. -/
structure EscapeStart {σ : Type} (tok : Tokenizer σ) (c c₀ : ByteClass) (actions : List Action)
    (s₀ s e₁ e₂ : σ) : Prop extends EscapeLoop tok c s e₁ e₂ where
  first : ∀ b : UInt8, c₀.has b.toNat = true → tok.move s₀ b = .goto actions s
  firstEscape : tok.move s₀ 37 = .goto actions e₁

section Escapes

variable {σ : Type} {tok : Tokenizer σ} {c c₀ : ByteClass} {s s₀ e₁ e₂ : σ} {a t : Str}
  {r r₁ : Registers} {actions : List Action}

/-- A text with escapes is read in a loop of three states. -/
theorem EscapeLoop.reaches (h : EscapeLoop tok c s e₁ e₂) (ht : Escaped c t) :
    Reaches tok a s r t s r [] := by
  induction ht generalizing a with
  | nil => exact .refl
  | plain hb _ ih =>
      have hhead : Reaches tok a s r [_] s r [] := .silent (h.plain _ hb)
      exact hhead.trans ih
  | escape hh hl _ ih =>
      have hpercent : Reaches tok a s r [37] e₁ r [] := .silent h.escape
      have hescape := (hpercent.trans (.silent (h.high _ hh))).trans (.silent (h.low _ hl))
      exact hescape.trans ih

/-- A part whose first byte is of the class `c₀` or begins an escape. -/
inductive Begins (c c₀ : ByteClass) : Str → Prop
  | plain {b : UInt8} {s : Str} (hb : c₀.has b.toNat = true) (hs : Escaped c s) :
      Begins c c₀ (b :: s)
  | escape {h l : UInt8} {s : Str} (hh : xdigit.has h.toNat = true)
      (hl : xdigit.has l.toNat = true) (hs : Escaped c s) : Begins c c₀ (37 :: h :: l :: s)

/-- The text is begun with a state of its own and then read in the loop. -/
theorem EscapeStart.reaches (h : EscapeStart tok c c₀ actions s₀ s e₁ e₂)
    (hperform : ∀ b rest, perform (a ++ b :: rest) a.length actions r = (r₁, []))
    (ht : Begins c c₀ t) : Reaches tok a s₀ r t s r₁ [] := by
  cases ht with
  | plain hb hs =>
      have hhead : Reaches tok a s₀ r [_] s r₁ [] := .byte (h.first _ hb) (hperform _)
      exact hhead.trans (h.toEscapeLoop.reaches hs)
  | escape hh hl hs =>
      have hpercent : Reaches tok a s₀ r [37] e₁ r₁ [] := .byte h.firstEscape (hperform _)
      have hescape := (hpercent.trans (.silent (h.high _ hh))).trans (.silent (h.low _ hl))
      exact hescape.trans (h.toEscapeLoop.reaches hs)

/-- A text with escapes that is not empty begins with a byte of the class or with an escape. -/
theorem Escaped.begins (hc : c.within c₀ = true) (ht : Escaped c t) (hne : t ≠ []) :
    Begins c c₀ t := by
  cases ht with
  | nil => exact absurd rfl hne
  | plain hb hs => exact .plain (ByteClass.has_of_within hc hb) hs
  | escape hh hl hs => exact .escape hh hl hs

end Escapes

/-! ## The generated states -/

/-- What the rows of a state say about a class. -/
theorem move_of_class {uriRelaxed : Bool} {s : Nat} {c : ByteClass} {m : Move Nat}
    (h : classLeads (requestRows uriRelaxed s) c m = true) (b : UInt8)
    (hb : c.has b.toNat = true) : (requestTokenizer uriRelaxed).move s b = m := by
  have hlookup := lookup_of_classLeads h hb
  change (lookup (requestRows uriRelaxed s) b.toNat).getD .error = m
  rw [hlookup]
  rfl

/-- The classes of a path and of a query, with `uri_relaxed` or without. -/
def pathBytes (uriRelaxed : Bool) : ByteClass :=
  pathChar ++ if uriRelaxed then moreDelims else []

def segmentBytes (uriRelaxed : Bool) : ByteClass :=
  pchar ++ if uriRelaxed then moreDelims else []

def queryBytes (uriRelaxed : Bool) : ByteClass :=
  queryChar ++ if uriRelaxed then moreDelims else []

section States

variable (uriRelaxed : Bool)

/-- The states of the path. -/
theorem path_states : EscapeStart (requestTokenizer uriRelaxed) (pathBytes uriRelaxed)
    (segmentBytes uriRelaxed) [] 33 26 27 28 where
  plain := move_of_class (by cases uriRelaxed <;> decide +kernel)
  escape := by cases uriRelaxed <;> rfl
  high := move_of_class (by cases uriRelaxed <;> decide +kernel)
  low := move_of_class (by cases uriRelaxed <;> decide +kernel)
  first := move_of_class (by cases uriRelaxed <;> decide +kernel)
  firstEscape := by cases uriRelaxed <;> rfl

/-- The states of the query. -/
theorem query_states : EscapeStart (requestTokenizer uriRelaxed) (queryBytes uriRelaxed)
    (queryBytes uriRelaxed) [.startQuery] 29 30 31 32 where
  plain := move_of_class (by cases uriRelaxed <;> decide +kernel)
  escape := by cases uriRelaxed <;> rfl
  high := move_of_class (by cases uriRelaxed <;> decide +kernel)
  low := move_of_class (by cases uriRelaxed <;> decide +kernel)
  first := move_of_class (by cases uriRelaxed <;> decide +kernel)
  firstEscape := by cases uriRelaxed <;> rfl

/-- The states of the fragment. -/
theorem fragment_states : EscapeStart (requestTokenizer uriRelaxed) (queryBytes uriRelaxed)
    (queryBytes uriRelaxed) [.mark] 20 21 22 23 where
  plain := move_of_class (by cases uriRelaxed <;> decide +kernel)
  escape := by cases uriRelaxed <;> rfl
  high := move_of_class (by cases uriRelaxed <;> decide +kernel)
  low := move_of_class (by cases uriRelaxed <;> decide +kernel)
  first := move_of_class (by cases uriRelaxed <;> decide +kernel)
  firstEscape := by cases uriRelaxed <;> rfl

/-- The state after `k` bytes of a method. -/
def methodState (k : Nat) : Nat :=
  if k = 1 then 2 else 173 + k

/-- The states of the method go on up to its twentieth byte. -/
theorem method_states : ∀ k < 21, 1 ≤ k →
    (requestTokenizer uriRelaxed).move (methodState k) 32 = tr4 ∧
    (k < 20 → classLeads (requestRows uriRelaxed (methodState k)) upperDigit
      (st (methodState (k + 1))) = true) := by
  cases uriRelaxed <;> decide +kernel

end States

/-! ## The parts of a head -/

/-- A path of the origin form: a slash, then nothing or what does not begin with one. -/
inductive OriginPath (uriRelaxed : Bool) : Str → Prop
  | root : OriginPath uriRelaxed [47]
  | more {p : Str} (hp : Begins (pathBytes uriRelaxed) (segmentBytes uriRelaxed) p) :
      OriginPath uriRelaxed (47 :: p)

/-- The bytes of such a path are those of a target. -/
theorem OriginPath.escaped {uriRelaxed : Bool} {p : Str} (h : OriginPath uriRelaxed p) :
    Escaped targetChar p := by
  have hpath : (pathBytes uriRelaxed).within targetChar = true := by cases uriRelaxed <;> rfl
  have hsegment : (segmentBytes uriRelaxed).within targetChar = true := by
    cases uriRelaxed <;> rfl
  cases h with
  | root => exact .plain (by decide) .nil
  | more hp =>
      refine .plain (by decide) ?_
      cases hp with
      | plain hb hs => exact .plain (ByteClass.has_of_within hsegment hb) (hs.mono hpath)
      | escape hh hl hs => exact .escape hh hl (hs.mono hpath)

section Parts

variable {uriRelaxed : Bool} {a : Str} {r : Registers}

/-- More bytes of a method. -/
theorem reaches_methodBytes {m : Str} (hm : Bytes upperDigit m) {k : Nat} (hk : 1 ≤ k)
    (hle : k + m.length ≤ 20) :
    Reaches (requestTokenizer uriRelaxed) a (methodState k) r m (methodState (k + m.length)) r
      [] := by
  induction m generalizing a k with
  | nil => exact .refl
  | cons b m ih =>
      rw [List.length_cons] at hle ⊢
      have hrow := (method_states uriRelaxed k (by omega) hk).2 (by omega)
      have hhead : Reaches (requestTokenizer uriRelaxed) a (methodState k) r [b]
          (methodState (k + 1)) r [] := .silent (move_of_class hrow b (hm b List.mem_cons_self))
      have htail := ih (a := a ++ [b]) (fun x hx => hm x (List.mem_cons_of_mem b hx))
        (Nat.le_add_left 1 k) (by omega)
      rw [Nat.add_right_comm k 1 m.length] at htail
      exact hhead.trans htail

/-- **The method.** -/
theorem reaches_method (uriRelaxed : Bool) {m : Str} (hm : MethodText m) :
    Reaches (requestTokenizer uriRelaxed) [] 1 ⟨0, 0, 0, 0⟩ (m ++ [32]) 3 ⟨0, 0, 0, 0⟩
      [.requestMethod (m ++ [32])] := by
  obtain ⟨hbytes, hpos, hle⟩ := hm
  cases m with
  | nil => exact absurd hpos (Nat.not_succ_le_zero 0)
  | cons b m =>
      rw [List.length_cons] at hle
      have hfirst : (requestTokenizer uriRelaxed).move 1 b = tr0 :=
        move_of_class (by cases uriRelaxed <;> decide +kernel) b (hbytes b List.mem_cons_self)
      have hhead : Reaches (requestTokenizer uriRelaxed) [] 1 ⟨0, 0, 0, 0⟩ [b] (methodState 1)
          ⟨0, 0, 0, 0⟩ [] := .byte hfirst fun _ => rfl
      have htail : Reaches (requestTokenizer uriRelaxed) [b] (methodState 1) ⟨0, 0, 0, 0⟩ m
          (methodState (1 + m.length)) ⟨0, 0, 0, 0⟩ [] :=
        reaches_methodBytes (fun x hx => hbytes x (List.mem_cons_of_mem b hx)) (Nat.le_refl 1)
          (by omega)
      have hspace := (method_states uriRelaxed (1 + m.length) (by omega) (by omega)).1
      refine (hhead.trans htail).trans (.byte hspace fun rest => ?_)
      have htext : (((b :: m) ++ 32 :: rest).take ((b :: m).length + 1)).drop 0 =
          b :: m ++ [32] := by
        rw [List.drop_zero, List.take_length_add_append]
        rfl
      exact congrArg (fun t => ((⟨0, 0, 0, 0⟩ : Registers), [Callback.requestMethod t])) htext

/-- The states in which a path of the origin form may end. -/
theorem reaches_path {p : Str} (hp : OriginPath uriRelaxed p) :
    ∃ s, (s = 33 ∨ s = 26) ∧ Reaches (requestTokenizer uriRelaxed) a 3 r p s
      { r with mark := a.length } [] := by
  have hmove : ∀ u, (requestTokenizer u).move 3 47 = tr10 := by decide +kernel
  have hslash : Reaches (requestTokenizer uriRelaxed) a 3 r [47] 33
      { r with mark := a.length } [] := .byte (hmove uriRelaxed) fun _ => rfl
  cases hp with
  | root => exact ⟨33, .inl rfl, hslash⟩
  | more hp =>
      exact ⟨26, .inr rfl, hslash.trans ((path_states uriRelaxed).reaches (fun _ _ => rfl) hp)⟩

/-- The path ends with a space, a number sign or a question mark. -/
theorem path_ends (uriRelaxed : Bool) {s : Nat} (hs : s = 33 ∨ s = 26) :
    (requestTokenizer uriRelaxed).move s 32 = tr37 ∧
    (requestTokenizer uriRelaxed).move s 35 = tr39 ∧
    (requestTokenizer uriRelaxed).move s 63 = tr42 := by
  rcases hs with rfl | rfl <;> cases uriRelaxed <;> exact ⟨rfl, rfl, rfl⟩

/-- What may stand after a target, and the state it leads to. -/
inductive After : UInt8 → Nat → Prop
  | version : After 32 4
  | fragment : After 35 20

/-- **A query and the byte after it.** -/
theorem reaches_query {q : Str} (hq : Escaped (queryBytes uriRelaxed) q) {t : UInt8} {s : Nat}
    (ht : After t s) :
    ∃ r', Reaches (requestTokenizer uriRelaxed) a 29 r (q ++ [t]) s r'
      [.queryString (some q), .requestUri] := by
  by_cases hne : q = []
  · subst hne
    refine ⟨{ r with queryStart := a.length }, ?_⟩
    have hperform : ∀ rest, perform (a ++ t :: rest) a.length
        [.startQuery, .queryString, .requestUri] r =
        ({ r with queryStart := a.length }, [.queryString (some []), .requestUri]) := by
      intro rest
      simp only [perform, Action.setRegisters, Action.callback?, text_here]
      rfl
    cases ht <;> exact .byte (by cases uriRelaxed <;> rfl) hperform
  · refine ⟨{ r with queryStart := a.length }, ?_⟩
    have hbegins : Begins (queryBytes uriRelaxed) (queryBytes uriRelaxed) q :=
      hq.begins (by cases uriRelaxed <;> rfl) hne
    have hbody := (query_states uriRelaxed).reaches (a := a) (r := r) (fun _ _ => rfl) hbegins
    have hperform : ∀ rest, perform (a ++ q ++ t :: rest) (a ++ q).length
        [.queryString, .requestUri] { r with queryStart := a.length } =
        ({ r with queryStart := a.length }, [.queryString (some q), .requestUri]) := by
      intro rest
      simp only [perform, Action.setRegisters, Action.callback?,
        text_since (a := a) (s := q) (t :: rest) rfl]
      rfl
    refine hbody.trans ?_
    cases ht <;> exact .byte (by cases uriRelaxed <;> rfl) hperform

/-- **A fragment and the space after it.** -/
theorem reaches_fragment {f : Str} (hf : Escaped (queryBytes uriRelaxed) f) :
    ∃ r', Reaches (requestTokenizer uriRelaxed) a 20 r (f ++ [32]) 4 r'
      [.fragment (some f)] := by
  refine ⟨{ r with mark := a.length }, ?_⟩
  by_cases hne : f = []
  · subst hne
    have hperform : ∀ rest, perform (a ++ 32 :: rest) a.length [.mark, .fragment] r =
        ({ r with mark := a.length }, [.fragment (some [])]) := by
      intro rest
      simp only [perform, Action.setRegisters, Action.callback?, text_here]
      rfl
    exact .byte (by cases uriRelaxed <;> rfl) hperform
  · have hbegins : Begins (queryBytes uriRelaxed) (queryBytes uriRelaxed) f :=
      hf.begins (by cases uriRelaxed <;> rfl) hne
    have hbody := (fragment_states uriRelaxed).reaches (a := a) (r := r) (fun _ _ => rfl) hbegins
    have hperform : ∀ rest, perform (a ++ f ++ 32 :: rest) (a ++ f).length [.fragment]
        { r with mark := a.length } =
        ({ r with mark := a.length }, [.fragment (some f)]) := by
      intro rest
      simp only [perform, Action.setRegisters, Action.callback?,
        text_since (a := a) (s := f) (32 :: rest) rfl]
      rfl
    exact hbody.trans (.byte (by cases uriRelaxed <;> rfl) hperform)

/-- The callbacks of a path with a query. -/
def pathCallbacks (p : Str) (q : Option Str) : List Callback :=
  [.requestPath (some p)] ++ (q.map fun q => .queryString (some q)).toList ++ [.requestUri]

/-- **A path, a query and the byte after them.** -/
theorem reaches_uri {p : Str} {q : Option Str} (hp : OriginPath uriRelaxed p)
    (hq : ∀ x ∈ q, Escaped (queryBytes uriRelaxed) x) {t : UInt8} {s : Nat} (ht : After t s) :
    ∃ r', Reaches (requestTokenizer uriRelaxed) a 3 r (p ++ optional 63 q ++ [t]) s r'
      (pathCallbacks p q) := by
  obtain ⟨s₁, hs₁, hpath⟩ := reaches_path (a := a) (r := r) hp
  obtain ⟨hspace, hhash, hquery⟩ := path_ends uriRelaxed hs₁
  have htext : ∀ b rest, text (a ++ p ++ b :: rest) a.length (a ++ p).length = some p :=
    fun b rest => text_since (b :: rest) rfl
  cases q with
  | none =>
      refine ⟨{ r with mark := a.length }, ?_⟩
      have hperform : ∀ rest, perform (a ++ p ++ t :: rest) (a ++ p).length
          [.requestPath, .requestUri] { r with mark := a.length } =
          ({ r with mark := a.length }, pathCallbacks p none) := by
        intro rest
        simp only [perform, Action.setRegisters, Action.callback?, htext]
        rfl
      have hend : Reaches (requestTokenizer uriRelaxed) (a ++ p) s₁ { r with mark := a.length }
          [t] s { r with mark := a.length } (pathCallbacks p none) := by
        cases ht
        · exact .byte hspace hperform
        · exact .byte hhash hperform
      have hnil : p ++ optional 63 none = p := List.append_nil p
      rw [hnil]
      exact hpath.trans hend
  | some q =>
      have hperform : ∀ rest, perform (a ++ p ++ 63 :: rest) (a ++ p).length
          [.requestPath] { r with mark := a.length } =
          ({ r with mark := a.length }, [.requestPath (some p)]) := by
        intro rest
        simp only [perform, Action.setRegisters, Action.callback?, htext]
        rfl
      have hmark := hpath.trans (.byte hquery hperform)
      obtain ⟨r', hend⟩ := reaches_query (a := a ++ (p ++ [63]))
        (r := { r with mark := a.length }) (hq q rfl) ht
      refine ⟨r', ?_⟩
      have hall := hmark.trans hend
      simpa [optional, pathCallbacks] using hall

/-- **A target and the space after it.** -/
theorem reaches_target {p : Str} {q f : Option Str} (hp : OriginPath uriRelaxed p)
    (hq : ∀ x ∈ q, Escaped (queryBytes uriRelaxed) x)
    (hf : ∀ x ∈ f, Escaped (queryBytes uriRelaxed) x) :
    ∃ r', Reaches (requestTokenizer uriRelaxed) a 3 r
      (p ++ optional 63 q ++ optional 35 f ++ [32]) 4 r'
      (pathCallbacks p q ++ (f.map fun f => .fragment (some f)).toList) := by
  cases f with
  | none =>
      obtain ⟨r', h⟩ := reaches_uri (a := a) (r := r) hp hq .version
      exact ⟨r', by simpa [optional] using h⟩
  | some f =>
      obtain ⟨r₁, huri⟩ := reaches_uri (a := a) (r := r) hp hq .fragment
      obtain ⟨r', hfrag⟩ := reaches_fragment (a := a ++ (p ++ optional 63 q ++ [35])) (r := r₁)
        (hf f rfl)
      refine ⟨r', ?_⟩
      have hall := huri.trans hfrag
      simpa [optional] using hall

/-- A line feed ends the line. -/
theorem lineFeed_state : ∀ u, (requestTokenizer u).move 17 10 = st 13 := by
  decide +kernel

/-- The end of a line, in a state where the line may end. -/
theorem reaches_lineEnd {s : Nat} (actions : List Action) {r' : Registers}
    {cbs : List Callback} (hlf : (requestTokenizer uriRelaxed).move s 10 = .goto actions 13)
    (hcr : (requestTokenizer uriRelaxed).move s 13 = .goto actions 17)
    (hperform : ∀ b rest, perform (a ++ b :: rest) a.length actions r = (r', cbs))
    (e : LineEnd) : Reaches (requestTokenizer uriRelaxed) a s r e.bytes 13 r' cbs := by
  cases e with
  | lf => exact .byte hlf (hperform 10)
  | crlf =>
      have hfirst : Reaches (requestTokenizer uriRelaxed) a s r [13] 17 r' cbs :=
        .byte hcr (hperform 13)
      have hboth := hfirst.trans (.silent (lineFeed_state uriRelaxed))
      rwa [List.append_nil] at hboth

/-- The states of the version go through its first seven bytes. -/
theorem version_states (uriRelaxed : Bool) : ∀ k < 7,
    (requestTokenizer uriRelaxed).move (4 + k) (versionBytes[k]?.getD 0) =
      .goto (if k = 0 then [.mark] else []) (4 + (k + 1)) := by
  cases uriRelaxed <;> decide +kernel

/-- The version up to its last digit. -/
theorem reaches_versionBytes :
    Reaches (requestTokenizer uriRelaxed) a 4 r versionBytes 11 { r with mark := a.length } [] := by
  have hmove := version_states uriRelaxed
  have hfirst : Reaches (requestTokenizer uriRelaxed) a 4 r [72] 5 { r with mark := a.length } [] :=
    .byte (hmove 0 (by decide)) fun _ => rfl
  exact (((((hfirst.trans (.silent (hmove 1 (by decide)))).trans
    (.silent (hmove 2 (by decide)))).trans (.silent (hmove 3 (by decide)))).trans
    (.silent (hmove 4 (by decide)))).trans (.silent (hmove 5 (by decide)))).trans
    (.silent (hmove 6 (by decide)))

/-- **The version and the end of its line.** -/
theorem reaches_version (uriRelaxed : Bool) {minor : UInt8} (hminor : minor = 48 ∨ minor = 49) (e : LineEnd) :
    ∃ r', Reaches (requestTokenizer uriRelaxed) a 4 r (versionBytes ++ [minor] ++ e.bytes) 13 r'
      [.httpVersion (some (versionBytes ++ [minor]))] := by
  refine ⟨{ r with mark := a.length }, ?_⟩
  have hdigit : (requestTokenizer uriRelaxed).move 11 minor = st 12 := by
    rcases hminor with rfl | rfl <;> cases uriRelaxed <;> rfl
  have htext : Reaches (requestTokenizer uriRelaxed) a 4 r (versionBytes ++ [minor]) 12
      { r with mark := a.length } [] := reaches_versionBytes.trans (.silent hdigit)
  have hperform : ∀ b rest, perform (a ++ (versionBytes ++ [minor]) ++ b :: rest)
      (a ++ (versionBytes ++ [minor])).length [.httpVersion] { r with mark := a.length } =
      ({ r with mark := a.length }, [.httpVersion (some (versionBytes ++ [minor]))]) := by
    intro b rest
    simp only [perform, Action.setRegisters, Action.callback?,
      text_since (a := a) (s := versionBytes ++ [minor]) (b :: rest) rfl]
    rfl
  exact htext.trans (reaches_lineEnd [.httpVersion] (by cases uriRelaxed <;> rfl)
    (by cases uriRelaxed <;> rfl) hperform e)

/-! ## Header fields -/

/-- A carriage return begins the empty line. -/
theorem carriageReturn_state : ∀ u, (requestTokenizer u).move 13 13 = tr25 := by
  decide +kernel

/-- A name is read in one state. -/
theorem reaches_nameBytes {n : Str} (hn : Bytes token n) :
    Reaches (requestTokenizer uriRelaxed) a 14 r n 14 r [] :=
  .loop fun b hb => move_of_class (by cases uriRelaxed <;> decide +kernel) b (hn b hb)

/-- The name of a field and its colon. -/
theorem reaches_name (uriRelaxed : Bool) {n : Str} (hn : FieldName n) :
    Reaches (requestTokenizer uriRelaxed) a 13 r (n ++ [58]) 15
      { r with fieldStart := a.length, fieldLen := n.length } [] := by
  obtain ⟨s, hcolon, hname⟩ : ∃ s, (requestTokenizer uriRelaxed).move s 58 = tr27 ∧
      Reaches (requestTokenizer uriRelaxed) a 13 r n s { r with fieldStart := a.length } [] := by
    cases hn with
    | plain hb hs =>
        have hfirst : Reaches (requestTokenizer uriRelaxed) a 13 r [_] 14
            { r with fieldStart := a.length } [] :=
          .byte (move_of_class (m := tr23) (by cases uriRelaxed <;> decide +kernel) _ hb)
            fun _ => rfl
        exact ⟨14, by cases uriRelaxed <;> rfl, hfirst.trans (reaches_nameBytes hs)⟩
    | bare =>
        exact ⟨18, by cases uriRelaxed <;> rfl, .byte (carriageReturn_state uriRelaxed)
          fun _ => rfl⟩
    | afterCR hb hs =>
        have hfirst : Reaches (requestTokenizer uriRelaxed) a 13 r [13] 18
            { r with fieldStart := a.length } [] :=
          .byte (carriageReturn_state uriRelaxed) fun _ => rfl
        have hsecond := hfirst.trans
          (.silent (move_of_class (m := st 14) (by cases uriRelaxed <;> decide +kernel) _ hb))
        exact ⟨14, by cases uriRelaxed <;> rfl, hsecond.trans (reaches_nameBytes hs)⟩
  refine hname.trans (.byte hcolon fun rest => perform_writeField ?_)
  rw [List.length_append, Nat.add_sub_cancel_left]

/-- Blanks before a value; each of them moves the mark. -/
theorem reaches_blanks (uriRelaxed : Bool) {s : Str} (hs : Bytes blank s) :
    ∃ m, Reaches (requestTokenizer uriRelaxed) a 15 r s 15 { r with mark := m } [] := by
  induction s generalizing a r with
  | nil => exact ⟨r.mark, .refl⟩
  | cons b s ih =>
      obtain ⟨m, htail⟩ := ih (a := a ++ [b]) (r := { r with mark := a.length })
        fun x hx => hs x (List.mem_cons_of_mem b hx)
      have hhead : Reaches (requestTokenizer uriRelaxed) a 15 r [b] 15
          { r with mark := a.length } [] :=
        .byte (move_of_class (m := tr29) (by cases uriRelaxed <;> decide +kernel) b
          (hs b List.mem_cons_self)) fun _ => rfl
      exact ⟨m, hhead.trans htail⟩

/-- A value that is not empty. -/
theorem reaches_valueBytes {b : UInt8} {v : Str} (hb : valueStart.has b.toNat = true)
    (hv : Bytes valueChar v) :
    Reaches (requestTokenizer uriRelaxed) a 15 r (b :: v) 16 { r with mark := a.length } [] := by
  have hfirst : Reaches (requestTokenizer uriRelaxed) a 15 r [b] 16
      { r with mark := a.length } [] :=
    .byte (move_of_class (m := tr28) (by cases uriRelaxed <;> decide +kernel) b hb) fun _ => rfl
  exact hfirst.trans (.loop fun x hx =>
    move_of_class (m := st 16) (by cases uriRelaxed <;> decide +kernel) x (hv x hx))

/-- **A header field.** -/
theorem reaches_field (uriRelaxed : Bool) (f : HeadField) :
    ∃ r', Reaches (requestTokenizer uriRelaxed) a 13 r f.bytes 13 r' [f.callback] := by
  obtain ⟨n, s, v, e, hn, hs, hv⟩ := f
  have hname := reaches_name uriRelaxed (a := a) (r := r) hn
  obtain ⟨m, hblanks⟩ := reaches_blanks uriRelaxed (a := a ++ (n ++ [58]))
    (r := { r with fieldStart := a.length, fieldLen := n.length }) hs
  have hfront := hname.trans hblanks
  -- the offsets when the value has been read, its mark being where it begins
  let r₁ : Registers := ⟨(a ++ n ++ [58] ++ s).length, a.length, n.length, r.queryStart⟩
  have hwrite : ∀ b rest, perform (a ++ n ++ [58] ++ s ++ v ++ b :: rest)
      (a ++ n ++ [58] ++ s ++ v).length [.writeValue] r₁ = (r₁, [.httpField n (some v)]) := by
    intro b rest
    have hvalue := text_since (a := a ++ n ++ [58] ++ s) (s := v) (b :: rest) rfl
    have hfield := name_since (a := a) (n := n) (s := [58] ++ s ++ v) (b :: rest) rfl rfl
    simp only [← List.append_assoc] at hfield
    simp only [perform, Action.setRegisters, Action.callback?, r₁, hvalue, hfield]
    rfl
  have hbase : a ++ (n ++ [58] ++ s) = a ++ n ++ [58] ++ s := by simp
  refine ⟨r₁, ?_⟩
  cases hv with
  | nil =>
      have hend : Reaches (requestTokenizer uriRelaxed) (a ++ n ++ [58] ++ s) 15
          ⟨m, a.length, n.length, r.queryStart⟩ e.bytes 13 r₁ [.httpField n (some [])] := by
        refine reaches_lineEnd [.startValue, .writeValue]
          (by cases uriRelaxed <;> rfl) (by cases uriRelaxed <;> rfl) (fun b rest => ?_) e
        have h := hwrite b rest
        rw [List.append_nil] at h
        exact h
      rw [← hbase] at hend
      have hall := hfront.trans hend
      simpa [HeadField.bytes, HeadField.callback] using hall
  | cons hb hv =>
      rename_i b v
      have hbody : Reaches (requestTokenizer uriRelaxed) (a ++ n ++ [58] ++ s) 15
          ⟨m, a.length, n.length, r.queryStart⟩ (b :: v) 16 r₁ [] := reaches_valueBytes hb hv
      have hend : Reaches (requestTokenizer uriRelaxed) (a ++ n ++ [58] ++ s ++ b :: v) 16 r₁
          e.bytes 13 r₁ [.httpField n (some (b :: v))] :=
        reaches_lineEnd [.writeValue] (by cases uriRelaxed <;> rfl)
          (by cases uriRelaxed <;> rfl) hwrite e
      have hline := hbody.trans hend
      rw [← hbase] at hline
      have hall := hfront.trans hline
      simpa [HeadField.bytes, HeadField.callback] using hall

/-- **Header fields.** -/
theorem reaches_fields (uriRelaxed : Bool) (fs : List HeadField) :
    ∃ r', Reaches (requestTokenizer uriRelaxed) a 13 r (fs.flatMap HeadField.bytes) 13 r'
      (fs.map HeadField.callback) := by
  induction fs generalizing a r with
  | nil => exact ⟨r, .refl⟩
  | cons f fs ih =>
      obtain ⟨r₁, hfirst⟩ := reaches_field uriRelaxed (a := a) (r := r) f
      obtain ⟨r', hrest⟩ := ih (a := a ++ f.bytes) (r := r₁)
      exact ⟨r', by simpa using hfirst.trans hrest⟩

end Parts

/-! ## Heads -/

/-- The target is a path, with or without a query and a fragment. -/
structure OriginForm (uriRelaxed : Bool) (t : RequestTarget) : Prop where
  scheme : t.scheme = none
  path : OriginPath uriRelaxed t.path
  query : ∀ q ∈ t.query, Escaped (queryBytes uriRelaxed) q
  fragment : ∀ f ∈ t.fragment, Escaped (queryBytes uriRelaxed) f

/-- The head up to its last line end. -/
theorem reaches_head {uriRelaxed : Bool} {h : RequestHead}
    (horigin : OriginForm uriRelaxed h.toRequestTarget) :
    ∃ r', Reaches (requestTokenizer uriRelaxed) [] 1 ⟨0, 0, 0, 0⟩ h.toRequestLines.bytes 13 r'
      h.callbacks := by
  obtain ⟨hscheme, hpath, hquery, hfragment⟩ := horigin
  have hmethod := reaches_method uriRelaxed h.method_ok
  obtain ⟨r₁, htarget⟩ := reaches_target (a := h.method ++ [32]) (r := ⟨0, 0, 0, 0⟩) hpath
    hquery hfragment
  obtain ⟨r₂, hversion⟩ := reaches_version uriRelaxed
    (a := h.method ++ [32] ++ (h.path ++ optional 63 h.query ++ optional 35 h.fragment ++ [32]))
    (r := r₁) h.minor_ok h.lineEnd
  obtain ⟨r₃, hfields⟩ := reaches_fields uriRelaxed
    (a := h.method ++ [32] ++ (h.path ++ optional 63 h.query ++ optional 35 h.fragment ++ [32]) ++
      (versionBytes ++ [h.minor] ++ h.lineEnd.bytes)) (r := r₂) h.fields
  refine ⟨r₃, ?_⟩
  have hall := ((hmethod.trans htarget).trans hversion).trans (by simpa using hfields)
  simpa [RequestLines.bytes, RequestLine.bytes, RequestTarget.bytes, RequestUri.bytes,
    RequestStart.bytes, RequestHead.callbacks, RequestLines.callbacks, RequestLine.callbacks,
    RequestTarget.callbacks, RequestUri.callbacks, RequestStart.callbacks, pathCallbacks,
    hscheme] using hall

/-- The last line end. -/
theorem execLoop_lastEnd (uriRelaxed : Bool) (a : Str) (r : Registers) (e : LineEnd)
    (more : Str) :
    ∃ r', execLoop (requestTokenizer uriRelaxed) (a ++ (e.bytes ++ more)) (e.bytes ++ more)
      a.length 13 r = ⟨.finished, r', [], (a ++ e.bytes).length⟩ := by
  cases e with
  | lf =>
      have hmove : (requestTokenizer uriRelaxed).move 13 10 = tr24 := by cases uriRelaxed <;> rfl
      refine ⟨{ r with fieldStart := a.length }, ?_⟩
      rw [LineEnd.bytes, List.singleton_append, execLoop, hmove, List.length_append]
      rfl
  | crlf =>
      have hcr : (requestTokenizer uriRelaxed).move 13 13 = tr25 := by cases uriRelaxed <;> rfl
      have hlf : (requestTokenizer uriRelaxed).move 18 10 = tr36 := by cases uriRelaxed <;> rfl
      refine ⟨{ r with fieldStart := a.length }, ?_⟩
      rw [LineEnd.bytes, List.cons_append, List.singleton_append, execLoop, hcr]
      simp only [tr25]
      rw [execLoop, hlf, List.length_append]
      rfl

/-- **A run over a head.** -/
theorem execLoop_head {uriRelaxed : Bool} {h : RequestHead}
    (horigin : OriginForm uriRelaxed h.toRequestTarget) (more : Str) :
    ∃ r', execLoop (requestTokenizer uriRelaxed) (h.bytes ++ more) (h.bytes ++ more) 0 1
      ⟨0, 0, 0, 0⟩ = ⟨.finished, r', h.callbacks, h.bytes.length⟩ := by
  obtain ⟨r₁, hhead⟩ := reaches_head horigin
  obtain ⟨r', hlast⟩ := execLoop_lastEnd uriRelaxed h.toRequestLines.bytes r₁
    h.lastEnd more
  refine ⟨r', ?_⟩
  have hrun := hhead (h.lastEnd.bytes ++ more)
  rw [List.nil_append, hlast, ← List.append_assoc] at hrun
  refine hrun.trans ?_
  rw [Executed.after, List.append_nil]
  rfl

/-- **A head is taken.**  Whatever follows it, the machine stops behind its last byte and
has made the callbacks of its parts. -/
theorem httpParserExecute_head {uriRelaxed : Bool} {h : RequestHead}
    (horigin : OriginForm uriRelaxed h.toRequestTarget) (more : Str) :
    ∃ r', httpParserExecute (requestTokenizer uriRelaxed)
      (httpParserInit (requestTokenizer uriRelaxed)) (h.bytes ++ more) =
      ⟨.finished, r', h.callbacks, h.bytes.length⟩ :=
  execLoop_head horigin more

theorem methodText_get : MethodText [71, 69, 84] :=
  ⟨List.all_eq_true.mp (by decide), by decide, by decide⟩

theorem schemeText_none : ∀ s ∈ (none : Option Str), SchemeText s := by
  simp

theorem minor_one : (49 : UInt8) = 48 ∨ (49 : UInt8) = 49 :=
  .inr rfl

/-- `/a` is a path. -/
theorem originPath_a : OriginPath false [47, 97] :=
  .more (.plain (by decide) .nil)

/-- `q=%20` is a query. -/
theorem escaped_query : Escaped (queryBytes false) [113, 61, 37, 50, 48] :=
  .plain (by decide) (.plain (by decide) (.escape (by decide) (by decide) .nil))

/-- `f` is a fragment. -/
theorem escaped_fragment : Escaped (queryBytes false) [102] :=
  .plain (by decide) .nil

theorem some_query : ∀ q ∈ some [113, 61, 37, 50, 48], Escaped relaxedQueryChar q := by
  intro q hq
  obtain rfl := Option.some.inj hq
  exact escaped_query.mono rfl

theorem some_fragment : ∀ f ∈ some [102], Escaped relaxedQueryChar f := by
  intro f hf
  obtain rfl := Option.some.inj hf
  exact escaped_fragment.mono rfl

theorem fieldName_host : FieldName [104, 111, 115, 116] :=
  .plain (by decide) (List.all_eq_true.mp (by decide))

theorem bytes_blank : Bytes blank [32] :=
  List.all_eq_true.mp (by decide)

theorem fieldValue_b : FieldValue [98] :=
  .cons (by decide) (List.all_eq_true.mp (by decide))

/-- `host: b`, ended by a line feed alone. -/
def hostField : HeadField where
  name := [104, 111, 115, 116]
  blanks := [32]
  value := [98]
  lineEnd := .lf
  name_ok := fieldName_host
  blanks_ok := bytes_blank
  value_ok := fieldValue_b

/-- `GET /a?q=%20#f HTTP/1.1`, the field `host` and an empty line. -/
def searchHead : RequestHead where
  method := [71, 69, 84]
  scheme := none
  path := [47, 97]
  query := some [113, 61, 37, 50, 48]
  fragment := some [102]
  minor := 49
  lineEnd := .crlf
  fields := [hostField]
  lastEnd := .crlf
  method_ok := methodText_get
  scheme_ok := schemeText_none
  path_ok := originPath_a.escaped
  query_ok := some_query
  fragment_ok := some_fragment
  minor_ok := minor_one

/-- A head with query, fragment and field is taken, and a byte after it is left. -/
theorem httpParserExecute_searchHead :
    ∃ r', httpParserExecute (requestTokenizer false) (httpParserInit (requestTokenizer false))
      (searchHead.bytes ++ [88]) =
        ⟨.finished, r', [.requestMethod [71, 69, 84, 32], .requestPath (some [47, 97]),
          .queryString (some [113, 61, 37, 50, 48]), .requestUri, .fragment (some [102]),
          .httpVersion (some [72, 84, 84, 80, 47, 49, 46, 49]),
          .httpField [104, 111, 115, 116] (some [98])], searchHead.bytes.length⟩ := by
  have horigin : OriginForm false searchHead.toRequestTarget := by
    refine ⟨rfl, originPath_a, fun q hq => ?_, fun f hf => ?_⟩
    · obtain rfl := Option.some.inj hq
      exact escaped_query
    · obtain rfl := Option.some.inj hf
      exact escaped_fragment
  exact httpParserExecute_head horigin [88]

/-! ## The member that is not set -/

/-- With `uri_relaxed` a state has at most more rows. -/
theorem move_relaxed {s : Nat} {b : UInt8}
    (h : (requestTokenizer false).move s b ≠ .error ∨ moreDelims.has b.toNat = false) :
    (requestTokenizer true).move s b = (requestTokenizer false).move s b := by
  have hfalse : requestRows false s =
      ((requestTable.find? fun e => e.1 == s).map Prod.snd).getD [] := List.append_nil _
  have hmore : requestRows true s = requestRows false s ++ relaxedRows s := by
    rw [hfalse]
    rfl
  change (lookup (requestRows true s) b.toNat).getD .error =
    (lookup (requestRows false s) b.toNat).getD .error
  rw [hmore]
  rcases h with h | h
  · cases hl : lookup (requestRows false s) b.toNat with
    | none =>
        have hnone : (requestTokenizer false).move s b = .error := by
          change (lookup (requestRows false s) b.toNat).getD .error = .error
          rw [hl]
          rfl
        exact absurd hnone h
    | some m => rw [lookup_append_of_some hl]
  · refine congrArg (fun o => Option.getD o Move.error) (lookup_append_of_forall ?_)
    intro row hrow
    obtain ⟨e, -, rfl⟩ := List.mem_map.mp hrow
    exact h

/-- The machine stops in front of one of the bytes that `uri_relaxed` is about. -/
def StopsAtDelim (buffer : Str) (e : Executed Nat) : Prop :=
  e.cs = .error ∧ ∃ b ∈ buffer[e.nread]?, moreDelims.has b.toNat = true

theorem execLoop_relaxed {a rest : Str} {s : Nat} {r : Registers} :
    execLoop (requestTokenizer true) (a ++ rest) rest a.length s r =
      execLoop (requestTokenizer false) (a ++ rest) rest a.length s r ∨
    StopsAtDelim (a ++ rest)
      (execLoop (requestTokenizer false) (a ++ rest) rest a.length s r) := by
  induction rest generalizing a s r with
  | nil => exact .inl rfl
  | cons b rest ih =>
      by_cases hb : (requestTokenizer false).move s b = .error ∧ moreDelims.has b.toNat = true
      · right
        rw [execLoop, hb.1]
        exact ⟨rfl, b, by simp, hb.2⟩
      · have hmove : (requestTokenizer true).move s b = (requestTokenizer false).move s b := by
          refine move_relaxed ?_
          cases hdelim : moreDelims.has b.toNat with
          | false => exact .inr rfl
          | true => exact .inl fun herror => hb ⟨herror, hdelim⟩
        rw [execLoop, execLoop, hmove]
        cases hm : (requestTokenizer false).move s b with
        | error => exact .inl rfl
        | done actions => exact .inl rfl
        | goto actions s' =>
            have hlater := ih (a := a ++ [b]) (s := s')
              (r := (perform (a ++ b :: rest) a.length actions r).1)
            rw [List.append_assoc, List.length_append] at hlater
            exact hlater.imp (fun h => by
              simp only [List.singleton_append, List.length_singleton] at h
              simp only [h]) id

/-- **`uri_relaxed` is not set.**  Whatever it holds, the parser does the same, unless with
the value zero it stops in front of `^`, `{` or `}`. -/
theorem httpParserExecute_relaxed (buffer : Str) :
    httpParserExecute (requestTokenizer true) (httpParserInit (requestTokenizer true)) buffer =
      httpParserExecute (requestTokenizer false) (httpParserInit (requestTokenizer false))
        buffer ∨
    StopsAtDelim buffer (httpParserExecute (requestTokenizer false)
      (httpParserInit (requestTokenizer false)) buffer) :=
  execLoop_relaxed (a := []) (s := 1)

end Http

end Agent
