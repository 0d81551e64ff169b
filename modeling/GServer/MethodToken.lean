import GServer.HttpMessage
import GServer.HttpSession

/-!
# The method of a request

The tokenizer passes the method to `on_request_method` as a pointer into the buffer and
a length; the byte behind the method is a space.  `CharsToHttpMethod` gets the pointer
only.  It compares each name with as many bytes as the name has, so that a method which
goes on after a name is taken for it.

No name of `HTTP_METHOD_MAP` begins with another one: the order of the table does not
matter.
-/

namespace Agent

namespace Http

/-- The bytes of a method, `upper | digit`, as the tokenizer delivers them. -/
def IsMethodToken (t : Str) : Prop :=
  ∀ b ∈ t, isMethodByte b = true

instance (t : Str) : Decidable (IsMethodToken t) :=
  inferInstanceAs (Decidable (∀ b ∈ t, _))

/-- For the method `t` in a buffer that goes on with a space and `x`: a name of the table
sets its method, anything else is the error 1000, as `StringToHttpMethod` would have it. -/
structure Recognizes (M : Type) (t x : Str) : Prop where
  named : ∀ target : Target M, ∀ e ∈ httpMethodMap, t = ascii e.2 →
    onRequestMethod target (t ++ 32 :: x) =
      some { target with data := { target.data with method := e.1 } }
  unnamed : ∀ target : Target M, (∀ e ∈ httpMethodMap, t ≠ ascii e.2) →
    onRequestMethod target (t ++ 32 :: x) = some { target with error := 1000 }
  agrees : charsToHttpMethod (t ++ 32 :: x) = stringToHttpMethod t

/-! ## Comparisons with a name -/

/-- `strncmp` for the length of a string without zeros: it begins the other one. -/
theorem strncmpEq_iff_begins {name : Str} (h0 : 0 ∉ name) (m : Str) :
    strncmpEq name m name.length = true ↔ name <+: m := by
  induction name generalizing m with
  | nil => simp [strncmpEq]
  | cons c name ih =>
      have hc : (c == 0) = false := beq_eq_false_iff_ne.mpr fun h => h0 (h ▸ List.mem_cons_self)
      have hrest := ih fun h => h0 (List.mem_cons_of_mem c h)
      cases m with
      | nil => simp [strncmpEq, hc]
      | cons d m => simp [strncmpEq, hc, hrest, List.cons_prefix_cons]

/-- A name without spaces does not reach beyond a space. -/
theorem prefix_space_iff {name : Str} (h32 : 32 ∉ name) (t x : Str) :
    name <+: t ++ 32 :: x ↔ name <+: t := by
  constructor
  · intro h
    rcases Nat.le_total name.length t.length with hle | hge
    · exact List.prefix_of_prefix_length_le h (List.prefix_append t _) hle
    · have ht : t <+: name :=
        List.prefix_of_prefix_length_le (List.prefix_append t _) h hge
      obtain ⟨rest, rfl⟩ := ht
      cases rest with
      | nil => rw [List.append_nil]
      | cons c rest =>
          obtain ⟨hc, -⟩ := List.cons_prefix_cons.mp ((List.prefix_append_right_inj t).mp h)
          exact absurd (by simp [hc]) h32
  · exact fun h => h.trans (List.prefix_append t _)

/-! ## The table -/

/-- Every name stands for a method, and has no zero and no space. -/
theorem httpMethodMap_names : ∀ e ∈ httpMethodMap,
    0 ∉ ascii e.2 ∧ 32 ∉ ascii e.2 ∧ e.1 ≠ .INVALID_METHOD := by
  decide

/-- No name begins with another one. -/
theorem httpMethodMap_prefix_free {e e' : HttpMethod × String} (he : e ∈ httpMethodMap)
    (he' : e' ∈ httpMethodMap) (h : ascii e.2 <+: ascii e'.2) : e = e' := by
  have hall : (httpMethodMap.all fun e => httpMethodMap.all fun e' =>
      !(ascii e.2).isPrefixOf (ascii e'.2) || e == e') = true := by
    decide +kernel
  have hpair := List.all_eq_true.mp (List.all_eq_true.mp hall e he) e' he'
  rw [List.isPrefixOf_iff_prefix.mpr h] at hpair
  simpa using hpair

/-- `CharsToHttpMethod` finds a name that the token begins with, if there is one. -/
theorem charsToHttpMethod_cases (t x : Str) :
    (∃ e ∈ httpMethodMap, ascii e.2 <+: t ∧ charsToHttpMethod (t ++ 32 :: x) = e.1) ∨
    ((∀ e ∈ httpMethodMap, ¬ ascii e.2 <+: t) ∧
      charsToHttpMethod (t ++ 32 :: x) = .INVALID_METHOD) := by
  have hmatch : ∀ e ∈ httpMethodMap,
      strncmpEq (ascii e.2) (t ++ 32 :: x) (ascii e.2).length = true ↔ ascii e.2 <+: t := by
    intro e he
    obtain ⟨h0, h32, -⟩ := httpMethodMap_names e he
    rw [strncmpEq_iff_begins h0, prefix_space_iff h32]
  unfold charsToHttpMethod
  cases hfind : httpMethodMap.find? fun e =>
      strncmpEq (ascii e.2) (t ++ 32 :: x) (ascii e.2).length with
  | some e =>
      have he := List.mem_of_find?_eq_some hfind
      let test := fun e : HttpMethod × String =>
        strncmpEq (ascii e.2) (t ++ 32 :: x) (ascii e.2).length
      have hname : test e = true := List.find?_some hfind
      exact Or.inl ⟨e, he, (hmatch e he).mp hname, rfl⟩
  | none =>
      refine Or.inr ⟨fun e he h => ?_, rfl⟩
      exact List.find?_eq_none.mp hfind e he ((hmatch e he).mpr h)

/-- `StringToHttpMethod` finds the name that the token is, if there is one. -/
theorem stringToHttpMethod_cases {t : Str} (ht : IsMethodToken t) :
    (∃ e ∈ httpMethodMap, t = ascii e.2 ∧ stringToHttpMethod t = e.1) ∨
    ((∀ e ∈ httpMethodMap, t ≠ ascii e.2) ∧ stringToHttpMethod t = .INVALID_METHOD) := by
  have hwhole : cStr t = t := by
    refine List.takeWhile_eq_self_iff.mpr fun b hb => decide_eq_true fun h0 => ?_
    have hbyte := ht b hb
    rw [h0] at hbyte
    revert hbyte
    decide
  unfold stringToHttpMethod
  rw [hwhole]
  cases hfind : httpMethodMap.find? fun e => ascii e.2 == t with
  | some e =>
      have hname : ascii e.2 = t := by simpa using List.find?_some hfind
      exact Or.inl ⟨e, List.mem_of_find?_eq_some hfind, hname.symm, rfl⟩
  | none =>
      refine Or.inr ⟨fun e he h => ?_, rfl⟩
      exact List.find?_eq_none.mp hfind e he (by simp [h])

/-- The callback of the tokenizer at the space behind a method gets the token and the
space. -/
theorem requestMethod_callback {buffer : Str} {p : Nat} {r : Registers} (hmark : r.mark ≤ p)
    (hspace : buffer[p]? = some 32) :
    Action.requestMethod.callback? buffer p r =
      some (.requestMethod ((buffer.take p).drop r.mark ++ [32])) := by
  have hlt := (List.getElem?_eq_some_iff.mp hspace).1
  have hlen : r.mark ≤ (buffer.take p).length := by
    rw [List.length_take]
    omega
  simp only [Action.callback?, List.take_add_one, hspace, Option.toList_some,
    List.drop_append_of_le_length hlen]

/-- **Recognition of methods.**  A token is recognised as the method that it names, and
refused if it names none, exactly when no name of the table begins it without being all of
it. -/
theorem recognizes_iff (M : Type) (t x : Str) (ht : IsMethodToken t) :
    Recognizes M t x ↔ ∀ e ∈ httpMethodMap, ascii e.2 <+: t → ascii e.2 = t := by
  have hchars := charsToHttpMethod_cases t x
  have hstring := stringToHttpMethod_cases ht
  constructor
  · rintro ⟨-, -, hagrees⟩ e he hprefix
    -- some name is found, so the token is a name, which no other name begins
    rcases hchars with ⟨e', he', -, hfound⟩ | ⟨hnone, -⟩
    · rcases hstring with ⟨e'', he'', rfl, -⟩ | ⟨-, hinvalid⟩
      · rw [httpMethodMap_prefix_free he he'' hprefix]
      · exact absurd (hfound.symm.trans (hagrees.trans hinvalid)) (httpMethodMap_names e' he').2.2
    · exact absurd hprefix (hnone e he)
  · intro hwhole
    rcases hchars with ⟨e, he, hprefix, hfound⟩ | ⟨hnone, hinvalid⟩
    · obtain rfl := hwhole e he hprefix
      have hvalid := (httpMethodMap_names e he).2.2
      refine ⟨fun target e' he' hsame => ?_, fun target hno => absurd rfl (hno e he), ?_⟩
      · have heq : e' = e := httpMethodMap_prefix_free he' he (hsame ▸ List.prefix_refl _)
        simp only [onRequestMethod, hfound, if_neg hvalid, heq]
      · rcases hstring with ⟨e', he', hsame, hmethod⟩ | ⟨hno, -⟩
        · rw [hfound, hmethod, httpMethodMap_prefix_free he he' (hsame ▸ List.prefix_refl _)]
        · exact absurd rfl (hno e he)
    · refine ⟨fun target e he hsame => ?_, fun target _ => ?_, ?_⟩
      · exact absurd (hsame ▸ List.prefix_refl _) (hnone e he)
      · simp only [onRequestMethod, hinvalid, if_true]
      · rcases hstring with ⟨e, he, hsame, -⟩ | ⟨-, hmethod⟩
        · exact absurd (hsame ▸ List.prefix_refl _) (hnone e he)
        · rw [hinvalid, hmethod]

/-- `GETX` is taken for `GET`. -/
theorem getx_is_get :
    ¬ ∀ t x : Str, IsMethodToken t → Recognizes MapType t x := by
  intro hall
  have hagrees := (hall (ascii "GETX") (ascii "/") (by decide +kernel)).agrees
  revert hagrees
  decide +kernel

/-- `MKCOL`, of which no other name is the beginning. -/
theorem mkcol_is_recognized : Recognizes MapType (ascii "MKCOL") (ascii "/a HTTP/1.1") :=
  (recognizes_iff MapType (ascii "MKCOL") (ascii "/a HTTP/1.1") (by decide +kernel)).mpr
    (by decide +kernel)

end Http

end Agent
