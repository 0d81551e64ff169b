import GServer.ConfigMembers
import GServer.ConfigVar

/-!
# Loading a document

`LoadFromYaml` gives the text of each node that `ListAllMember` lists to the variable
that is registered under the node's name in lower case.

A variable is what `fromString` makes of it: it returns, having changed the variable or
not, lets an exception out, or does not return.  `ConfigVar::fromString` under the lock of
the GNU library is such a variable.  The guard of `setValue` releases the lock that
`fromString` holds, and when `fromString` ends the lock is released once more, so after a
text that converts the next call waits for ever.
-/

namespace Agent

open Http (Str ascii toLower EqualIgnoringCase)
open Guards

namespace Config

/-! ## The source -/

/-- `GetDatas()`: variables by name, which `Lookup` has checked. -/
structure Registry (V : Type _) where
  vars : Str → Option V
  valid : ∀ name, (vars name).isSome → validName name = true

/-- The registry with another state of one of its variables. -/
def Registry.modify {V : Type _} (reg : Registry V) (key : Str) (v : V) : Registry V where
  vars := fun name => if name = key then (reg.vars name).map fun _ => v else reg.vars name
  valid := by
    intro name h
    apply reg.valid name
    split at h
    · rwa [Option.isSome_map] at h
    · exact h

namespace Registry

variable {V : Type _} {reg : Registry V} {key name : Str} {v : V}

/-- A variable that is there is replaced. -/
theorem modify_vars_self (h : (reg.vars key).isSome) : (reg.modify key v).vars key = some v := by
  obtain ⟨w, hw⟩ := Option.isSome_iff_exists.mp h
  simp only [modify, if_true, hw, Option.map_some]

/-- The other variables stay as they are. -/
theorem modify_vars_of_ne (h : name ≠ key) : (reg.modify key v).vars name = reg.vars name :=
  if_neg h

end Registry

section Load

variable {V : Type _} (fromString : Str → V → Str → Option (Except Thrown V))
  (emit : Tree → Str)

/-- What `fromString` is called with: the text of a scalar, or what is printed of another
node. -/
def textOf : Tree → Str
  | .scalar text => text
  | node => emit node

/-- The loop of `LoadFromYaml`; an exception that a variable lets out ends it, and it does
not come back from a variable that does not. -/
def loadMembers : List (Str × Tree) → Registry V → Option (Except Thrown (Registry V))
  | [], reg => some (.ok reg)
  | (pre, node) :: members, reg =>
      if pre = [] then loadMembers members reg
      else
        let key := pre.map toLower
        match reg.vars key with
        | none => loadMembers members reg
        | some v =>
            match fromString key v (textOf emit node) with
            | none => none
            | some (.error e) => some (.error e)
            | some (.ok v) => loadMembers members (reg.modify key v)

/-- `Config::LoadFromYaml`. -/
def loadFromYaml (reg : Registry V) (root : Tree) : Option (Except Thrown (Registry V)) :=
  loadMembers fromString emit (listAllMember [] root) reg

end Load

/-! ## What it is for -/

section Spec

variable {V : Type _} (fromString : Str → V → Str → Option (Except Thrown V))
  (unlocked : V → V) (emit : Tree → Str)

/-- The variable after a call of `fromString` that finds its lock free; a call that throws
leaves it alone. -/
def applied (name : Str) (v : V) (text : Str) : V :=
  match fromString name v text with
  | some (.ok v) => unlocked v
  | _ => v

/-- The texts of nodes. -/
def texts (ns : List (List Str × Tree)) : List Str :=
  ns.map fun n => textOf emit n.2

/-- The document is loaded, and every variable holds what `fromString` makes of the texts
of the nodes that address it, in order; there are no other variables than before. -/
def Loads (reg : Registry V) (root : Tree) : Prop :=
  ∃ reg', loadFromYaml fromString emit reg root = some (.ok reg') ∧
    ∀ name, (reg'.vars name).map unlocked =
      (reg.vars name).map fun v =>
        (texts emit (addressed name root)).foldl (applied fromString unlocked name) v

end Spec

/-- The nodes that are taken for a name have the texts of the nodes that address it, but
for those at which the variable lets an exception out. -/
def TakesAddressed (emit : Tree → Str) (root : Tree) (escapes : Str → Str → Bool)
    (name : Str) : Prop :=
  texts emit (taken name root) =
    (texts emit (addressed name root)).filter fun text => !escapes name text

/-- No text is handed over after one that converts. -/
def ConvertsLast (converts : Str → Bool) (ts : List Str) : Prop :=
  ∀ text ∈ ts.dropLast, converts text = false

/-! ## The loop -/

section Loop

variable {V : Type _} {fromString : Str → V → Str → Option (Except Thrown V)}
  {emit : Tree → Str}

/-- The texts that the loop hands to a variable. -/
def handed (emit : Tree → Str) (name : Str) (members : List (Str × Tree)) : List Str :=
  (members.filter fun m => decide (m.1 ≠ []) && decide (m.1.map toLower = name)).map fun m =>
    textOf emit m.2

/-- A member that is skipped hands nothing over. -/
theorem handed_cons_skip {name : Str} {m : Str × Tree} {members : List (Str × Tree)}
    (h : m.1 = [] ∨ m.1.map toLower ≠ name) :
    handed emit name (m :: members) = handed emit name members := by
  rw [handed, List.filter_cons_of_neg]
  · rfl
  · rcases h with h | h
    · simp [h]
    · simp [h]

/-- The text of a member is handed to its name in lower case. -/
theorem handed_cons_self {m : Str × Tree} {members : List (Str × Tree)} (h : m.1 ≠ []) :
    handed emit (m.1.map toLower) (m :: members) =
      textOf emit m.2 :: handed emit (m.1.map toLower) members := by
  rw [handed, List.filter_cons_of_pos]
  · rfl
  · simp [h]

/-- A variable that is handed texts one after the other; `none` where a call does not return
or lets an exception out. -/
def feed (f : V → Str → Option (Except Thrown V)) : V → List Str → Option V
  | v, [] => some v
  | v, text :: ts =>
      match f v text with
      | some (.ok v) => feed f v ts
      | _ => none

/-- The texts are taken one by one. -/
theorem feed_cons {f : V → Str → Option (Except Thrown V)} {v v' : V} {text : Str}
    (hcall : f v text = some (.ok v')) (ts : List Str) : feed f v (text :: ts) = feed f v' ts := by
  rw [feed, hcall]

/-- When the load is over each variable has been handed its texts. -/
theorem fed_of_loadMembers {members : List (Str × Tree)} {reg reg' : Registry V}
    (h : loadMembers fromString emit members reg = some (.ok reg')) (name : Str) :
    Option.Rel (fun v v' => feed (fromString name) v (handed emit name members) = some v')
      (reg.vars name) (reg'.vars name) := by
  induction members generalizing reg with
  | nil =>
      obtain rfl : reg = reg' := Except.ok.inj (Option.some.inj h)
      cases reg.vars name with
      | none => exact .none
      | some v => exact .some rfl
  | cons m members ih =>
      rw [loadMembers] at h
      by_cases hempty : m.1 = []
      · rw [if_pos hempty] at h
        rw [handed_cons_skip (Or.inl hempty)]
        exact ih h
      · rw [if_neg hempty] at h
        cases hvar : reg.vars (m.1.map toLower) with
        | none =>
            simp only [hvar] at h
            by_cases hname : m.1.map toLower = name
            · subst hname
              have hrest := ih h
              rw [hvar] at hrest ⊢
              cases hrest' : reg'.vars (m.1.map toLower) with
              | none => exact .none
              | some v =>
                  rw [hrest'] at hrest
                  cases hrest
            · rw [handed_cons_skip (Or.inr hname)]
              exact ih h
        | some v =>
            cases hcall : fromString (m.1.map toLower) v (textOf emit m.2) with
            | none =>
                simp only [hvar, hcall] at h
                cases h
            | some r =>
                cases r with
                | error e =>
                    simp only [hvar, hcall] at h
                    cases h
                | ok v' =>
                    simp only [hvar, hcall] at h
                    have hrest := ih h
                    by_cases hname : m.1.map toLower = name
                    · subst hname
                      rw [Registry.modify_vars_self (by rw [hvar]; rfl)] at hrest
                      rw [hvar, handed_cons_self hempty]
                      generalize reg'.vars (m.1.map toLower) = x at hrest ⊢
                      cases hrest with
                      | some hfed => exact .some ((feed_cons hcall _).trans hfed)
                    · rw [Registry.modify_vars_of_ne (Ne.symm hname)] at hrest
                      rwa [handed_cons_skip (Or.inr hname)]

/-- The load comes to its end where each variable can be handed its texts. -/
theorem exists_loadMembers (members : List (Str × Tree)) (reg : Registry V)
    (h : ∀ name v, reg.vars name = some v →
      ∃ v', feed (fromString name) v (handed emit name members) = some v') :
    ∃ reg', loadMembers fromString emit members reg = some (.ok reg') := by
  induction members generalizing reg with
  | nil => exact ⟨reg, rfl⟩
  | cons m members ih =>
      rw [loadMembers]
      by_cases hempty : m.1 = []
      · rw [if_pos hempty]
        refine ih reg fun name v hv => ?_
        have hfed := h name v hv
        rwa [handed_cons_skip (Or.inl hempty)] at hfed
      · rw [if_neg hempty]
        cases hvar : reg.vars (m.1.map toLower) with
        | none =>
            simp only [hvar]
            refine ih reg fun name v hv => ?_
            have hfed := h name v hv
            have hname : m.1.map toLower ≠ name := by
              intro heq
              rw [← heq, hvar] at hv
              cases hv
            rwa [handed_cons_skip (Or.inr hname)] at hfed
        | some v =>
            obtain ⟨w, hw⟩ := h _ v hvar
            rw [handed_cons_self hempty, feed] at hw
            cases hcall : fromString (m.1.map toLower) v (textOf emit m.2) with
            | none =>
                rw [hcall] at hw
                cases hw
            | some r =>
                cases r with
                | error e =>
                    rw [hcall] at hw
                    cases hw
                | ok v' =>
                    rw [hcall] at hw
                    simp only [hvar, hcall]
                    refine ih (reg.modify (m.1.map toLower) v') fun name u hu => ?_
                    by_cases hname : m.1.map toLower = name
                    · subst hname
                      rw [Registry.modify_vars_self (by rw [hvar]; rfl)] at hu
                      cases hu
                      exact ⟨w, hw⟩
                    · rw [Registry.modify_vars_of_ne (Ne.symm hname)] at hu
                      have hfed := h name u hu
                      rwa [handed_cons_skip (Or.inr hname)] at hfed

/-- What is handed to a variable are the texts of the nodes that are taken for it. -/
theorem handed_listAllMember (root : Tree) (name : Str) :
    handed emit name (listAllMember [] root) = texts emit (taken name root) := by
  have hmembers : listAllMember [] root = validNodes (nodes [] root) := listAllMember_eq root []
  have hfilter : ∀ n ∈ nodes [] root,
      (n.1.all validName && (decide (joined n.1 ≠ []) &&
        decide ((joined n.1).map toLower = name))) =
      (n.1.all validName && decide (joined n.1 = name) && decide (name ≠ [])) := by
    intro n _
    cases hvalid : n.1.all validName with
    | false => rfl
    | true =>
        rw [map_toLower_of_valid ((validName_joined n.1).trans hvalid)]
        by_cases hjoined : joined n.1 = name
        · rw [hjoined]
          simp
        · simp [hjoined]
  rw [handed, hmembers, validNodes, List.filter_map, List.filter_filter, List.map_map, texts,
    taken, ← List.filter_congr hfilter]
  refine congrArg _ (List.filter_congr fun n _ => ?_)
  rw [Bool.and_comm]
  rfl

end Loop

/-! ## Variables with a lock -/

/-- What a variable does with a text.  Ready for one it lets an exception out or returns,
and after a text that converts it is stuck until its lock is free again. -/
structure Serves {V : Type _} (f : V → Str → Option (Except Thrown V)) (unlocked : V → V)
    (ready stuck : V → Prop) (escapes converts : Str → Bool) : Prop where
  unlocked_of_ready : ∀ v, ready v → unlocked v = v
  unlocked_of_stuck : ∀ v, stuck v → ready (unlocked v)
  blocks : ∀ v text, stuck v → f v text = none
  throws : ∀ v text, ready v → escapes text = true → ∃ e, f v text = some (.error e)
  keeps : ∀ v text, ready v → escapes text = false → converts text = false →
    ∃ v', f v text = some (.ok v') ∧ ready v'
  breaks : ∀ v text, ready v → escapes text = false → converts text = true →
    ∃ v', f v text = some (.ok v') ∧ stuck v'

section Serves

variable {V : Type _} {f : V → Str → Option (Except Thrown V)} {unlocked : V → V}
  {ready stuck : V → Prop} {escapes converts : Str → Bool}

/-- A call that throws or returns leaves the variable ready once its lock is free. -/
theorem Serves.returns (h : Serves f unlocked ready stuck escapes converts) {v : V}
    (hv : ready v) {text : Str} (hesc : escapes text = false) :
    ∃ v', f v text = some (.ok v') ∧ ready (unlocked v') ∧
      (converts text = false → unlocked v' = v') := by
  cases hconv : converts text with
  | false =>
      obtain ⟨v', hcall, hready⟩ := h.keeps v text hv hesc hconv
      have hsame := h.unlocked_of_ready v' hready
      exact ⟨v', hcall, hsame.symm ▸ hready, fun _ => hsame⟩
  | true =>
      obtain ⟨v', hcall, hstuck⟩ := h.breaks v text hv hesc hconv
      exact ⟨v', hcall, h.unlocked_of_stuck v' hstuck, by simp⟩

/-- **One variable.**  It can be handed texts exactly when it lets no exception out and none
comes after one that converts. -/
theorem Serves.feed_iff (h : Serves f unlocked ready stuck escapes converts) {ts : List Str} {v : V}
    (hv : ready v) :
    (∃ v', feed f v ts = some v') ↔
      (∀ text ∈ ts, escapes text = false) ∧ ConvertsLast converts ts := by
  induction ts generalizing v with
  | nil => exact iff_of_true ⟨v, rfl⟩ ⟨by simp, by simp [ConvertsLast]⟩
  | cons text ts ih =>
      rw [feed, List.forall_mem_cons]
      cases hesc : escapes text with
      | true =>
          obtain ⟨e, hcall⟩ := h.throws v text hv hesc
          rw [hcall]
          exact iff_of_false (by simp) (by simp)
      | false =>
          cases hconv : converts text with
          | false =>
              obtain ⟨v', hcall, hready⟩ := h.keeps v text hv hesc hconv
              have hlast : ConvertsLast converts (text :: ts) ↔ ConvertsLast converts ts := by
                cases ts with
                | nil => simp [ConvertsLast]
                | cons text' ts => simp [ConvertsLast, List.dropLast_cons_cons, hconv]
              rw [hcall, hlast]
              simp only [true_and]
              exact ih hready
          | true =>
              obtain ⟨v', hcall, hstuck⟩ := h.breaks v text hv hesc hconv
              rw [hcall]
              cases ts with
              | nil => exact iff_of_true ⟨v', rfl⟩ ⟨⟨rfl, by simp⟩, by simp [ConvertsLast]⟩
              | cons text' ts =>
                  refine iff_of_false ?_ fun hall => ?_
                  · rintro ⟨w, hw⟩
                    simp only [feed, h.blocks v' text' hstuck] at hw
                    cases hw
                  · have hfirst := hall.2 text (by simp [List.dropLast_cons_cons])
                    rw [hconv] at hfirst
                    cases hfirst

/-- What is left when the lock is free again is what the calls make of the variable. -/
theorem Serves.feed_eq (h : Serves f unlocked ready stuck escapes converts) {ts : List Str}
    {v v' : V} (hv : ready v) (hfed : feed f v ts = some v') (name : Str) :
    unlocked v' = ts.foldl (applied (fun _ => f) unlocked name) v := by
  induction ts generalizing v with
  | nil =>
      cases hfed
      exact h.unlocked_of_ready _ hv
  | cons text ts ih =>
      have hsome := (h.feed_iff hv).mp ⟨v', hfed⟩
      obtain ⟨w, hcall, hready, hsame⟩ := h.returns hv (hsome.1 text List.mem_cons_self)
      have happlied : applied (fun _ => f) unlocked name v text = unlocked w := by
        rw [applied, hcall]
      rw [feed_cons hcall] at hfed
      rw [List.foldl_cons, happlied]
      cases hconv : converts text with
      | false =>
          rw [hsame hconv] at hready ⊢
          exact ih hready hfed
      | true =>
          cases ts with
          | nil =>
              cases hfed
              rfl
          | cons text' ts =>
              have hfirst := hsome.2 text (by simp [List.dropLast_cons_cons])
              rw [hconv] at hfirst
              cases hfirst

/-- Calls that let an exception out leave no trace. -/
theorem Serves.foldl_filter (h : Serves f unlocked ready stuck escapes converts) (ts : List Str)
    {v : V} (hv : ready v) (name : Str) :
    ts.foldl (applied (fun _ => f) unlocked name) v =
      (ts.filter fun text => !escapes text).foldl (applied (fun _ => f) unlocked name) v := by
  induction ts generalizing v with
  | nil => rfl
  | cons text ts ih =>
      rw [List.foldl_cons]
      cases hesc : escapes text with
      | false =>
          obtain ⟨w, hcall, hready, -⟩ := h.returns hv hesc
          have happlied : applied (fun _ => f) unlocked name v text = unlocked w := by
            rw [applied, hcall]
          rw [List.filter_cons_of_pos (by simp [hesc]), List.foldl_cons, happlied]
          exact ih hready
      | true =>
          obtain ⟨e, he⟩ := h.throws v text hv hesc
          have hsame : applied (fun _ => f) unlocked name v text = v := by rw [applied, he]
          rw [hsame, ih hv, List.filter_cons_of_neg (by simp [hesc])]

end Serves

/-- **All the variables.**  A document is loaded where the nodes taken for each variable have
the texts of those that address it, and none comes after a text that converts. -/
theorem loads_of_serves {V : Type _} {fromString : Str → V → Str → Option (Except Thrown V)}
    {unlocked : V → V} {emit : Tree → Str} {root : Tree} {reg : Registry V}
    {ready stuck : Str → V → Prop} {escapes converts : Str → Str → Bool}
    (hserves : ∀ name, (reg.vars name).isSome = true →
      Serves (fromString name) unlocked (ready name) (stuck name) (escapes name) (converts name))
    (hready : ∀ name v, reg.vars name = some v → ready name v)
    (htakes : ∀ name, (reg.vars name).isSome = true → TakesAddressed emit root escapes name ∧
      ConvertsLast (converts name) (texts emit (taken name root))) :
    Loads fromString unlocked emit reg root := by
  have hsome : ∀ {name v}, reg.vars name = some v → (reg.vars name).isSome = true := by
    intro name v hv
    rw [hv]
    rfl
  have hfed : ∀ name v, reg.vars name = some v →
      ∃ v', feed (fromString name) v (handed emit name (listAllMember [] root)) = some v' := by
    intro name v hv
    obtain ⟨hsame, hlast⟩ := htakes name (hsome hv)
    rw [handed_listAllMember]
    refine ((hserves name (hsome hv)).feed_iff (hready name v hv)).mpr ⟨fun text htext => ?_, hlast⟩
    rw [hsame] at htext
    simpa using (List.mem_filter.mp htext).2
  obtain ⟨reg', hload⟩ := exists_loadMembers _ reg hfed
  refine ⟨reg', hload, fun name => ?_⟩
  have hrel := fed_of_loadMembers hload name
  rw [handed_listAllMember] at hrel
  cases hvar : reg.vars name with
  | none =>
      rw [hvar] at hrel
      generalize reg'.vars name = x at hrel ⊢
      cases hrel
      rfl
  | some v =>
      rw [hvar] at hrel
      generalize reg'.vars name = x at hrel ⊢
      cases hrel with
      | some hv' =>
          have hserve := hserves name (hsome hvar)
          have hr := hready name v hvar
          have hfinal := hserve.feed_eq hr hv' name
          rw [(htakes name (hsome hvar)).1, ← hserve.foldl_filter _ hr name] at hfinal
          exact congrArg some hfinal

/-! ## Variables that keep a record -/

/-- A variable that records the texts it is given, lets an exception out at some and does not
return after others. -/
def record (escapes converts : Str → Str → Bool) (name : Str) (v : List Str × Bool)
    (text : Str) : Option (Except Thrown (List Str × Bool)) :=
  if v.2 then none
  else if escapes name text then some (.error .other)
  else some (.ok (v.1 ++ [text], converts name text))

/-- The record with its lock free. -/
def unbroken (v : List Str × Bool) : List Str × Bool :=
  (v.1, false)

/-- The record serves, and no longer once a text has converted. -/
theorem serves_record (escapes converts : Str → Str → Bool) (name : Str) :
    Serves (record escapes converts name) unbroken (fun v => v.2 = false) (fun v => v.2 = true)
      (escapes name) (converts name) where
  unlocked_of_ready v hv := Prod.ext rfl hv.symm
  unlocked_of_stuck _ _ := rfl
  blocks v text hv := by rw [record, if_pos hv]
  throws v text hv hesc := ⟨.other, by rw [record, if_neg (by simp [hv]), if_pos hesc]⟩
  keeps v text hv hesc hconv :=
    ⟨_, by rw [record, if_neg (by simp [hv]), if_neg (by simp [hesc])], hconv⟩
  breaks v text hv hesc hconv :=
    ⟨_, by rw [record, if_neg (by simp [hv]), if_neg (by simp [hesc])], hconv⟩

/-- A record with its lock free takes all texts that do not escape. -/
theorem foldl_record (escapes converts : Str → Str → Bool) (name : Str) (ts v : List Str) :
    ts.foldl (applied (record escapes converts) unbroken name) (v, false) =
      (v ++ ts.filter fun text => !escapes name text, false) := by
  induction ts generalizing v with
  | nil => simp
  | cons text ts ih =>
      rw [List.foldl_cons]
      cases hesc : escapes name text with
      | false =>
          have happlied : applied (record escapes converts) unbroken name (v, false) text =
              (v ++ [text], false) := by
            simp [applied, record, hesc, unbroken]
          rw [happlied, ih, List.filter_cons_of_pos (by simp [hesc])]
          simp
      | true =>
          have happlied : applied (record escapes converts) unbroken name (v, false) text =
              (v, false) := by
            simp [applied, record, hesc]
          rw [happlied, ih, List.filter_cons_of_neg (by simp [hesc])]

/-- From what such variables hold in the end it can be told what was handed to them. -/
theorem takesAddressed_of_loads {emit : Tree → Str} {root : Tree}
    {escapes converts : Str → Str → Bool} {reg : Registry (List Str × Bool)}
    (h : Loads (record escapes converts) unbroken emit reg root) {name : Str}
    (hname : reg.vars name = some ([], false)) :
    TakesAddressed emit root escapes name ∧
      ConvertsLast (converts name) (texts emit (taken name root)) := by
  obtain ⟨reg', hload, hvars⟩ := h
  have hrel := fed_of_loadMembers hload name
  have hvar := hvars name
  rw [handed_listAllMember, hname] at hrel
  rw [hname, Option.map_some, foldl_record] at hvar
  generalize reg'.vars name = x at hrel hvar
  cases hrel with
  | some hfed =>
      have hserves := serves_record escapes converts name
      obtain ⟨hesc, hlast⟩ := (hserves.feed_iff rfl).mp ⟨_, hfed⟩
      refine ⟨?_, hlast⟩
      have hfinal := hserves.feed_eq rfl hfed name
      have hrecord := foldl_record escapes converts name (texts emit (taken name root)) []
      have hsame := (Option.some.inj hvar).symm.trans (hfinal.trans hrecord)
      have hkept : (texts emit (taken name root)).filter (fun text => !escapes name text) =
          texts emit (taken name root) := by
        rw [List.filter_eq_self]
        intro text htext
        rw [hesc text htext]
        rfl
      rw [hkept] at hsame
      exact ((congrArg Prod.fst hsame).trans (List.nil_append _)).symm.trans (List.nil_append _)

/-- A registry of empty records under these names. -/
theorem exists_emptyRecords {names : Str → Prop}
    (hvalid : ∀ name, names name → validName name = true) :
    ∃ reg : Registry (List Str × Bool),
      (∀ name, names name → reg.vars name = some ([], false)) ∧
      ∀ name v, reg.vars name = some v → names name ∧ v = ([], false) := by
  classical
  have hsome : ∀ name v, (if names name then some (([], false) : List Str × Bool) else none) =
      some v → names name ∧ v = ([], false) := by
    intro name v hv
    obtain ⟨hname, heq⟩ := Option.ite_none_right_eq_some.mp hv
    exact ⟨hname, (Option.some.inj heq).symm⟩
  refine ⟨⟨fun name => if names name then some ([], false) else none, fun name h => ?_⟩,
    fun name hname => if_pos hname, hsome⟩
  obtain ⟨v, hv⟩ := Option.isSome_iff_exists.mp h
  exact hvalid name (hsome name v hv).1

/-! ## Ordinary documents -/

/-- Where nothing lets an exception out, all the texts have to be the same. -/
theorem takesAddressed_iff (emit : Tree → Str) (root : Tree) (name : Str) :
    TakesAddressed emit root (fun _ _ => false) name ↔
      texts emit (taken name root) = texts emit (addressed name root) := by
  have hall : (texts emit (addressed name root)).filter (fun _ => !false) =
      texts emit (addressed name root) := List.filter_eq_self.mpr fun _ _ => rfl
  rw [TakesAddressed, hall]

/-- In an ordinary document a variable takes what addresses it exactly when no path to it has an
upper-case letter. -/
theorem takesAddressed_iff_lowerCase (emit : Tree → Str) {root : Tree}
    (hroot : OrdinaryPaths root) {name : Str} (hname : validName name = true) :
    TakesAddressed emit root (fun _ _ => false) name ↔
      ∀ n ∈ addressed name root, LowerCasePath n.1 := by
  rw [takesAddressed_iff, taken_eq_filter hroot hname]
  constructor
  · intro h n hn
    have hlength := congrArg List.length h
    simp only [texts, List.length_map] at hlength
    exact of_decide_eq_true (List.length_filter_eq_length_iff.mp hlength n hn)
  · intro h
    rw [List.filter_eq_self.mpr fun n hn => decide_eq_true (h n hn)]

/-! ## Configuration variables -/

namespace ConfigVar

variable {T : Type} (traits : Traits T) (var : ConfigVar T)

/-- What `setValue` does apart from its guards. -/
def assigned (v : T) : Except Thrown (ConfigVar T) :=
  if traits.eq v var.val then .ok var
  else (notify var.val v var.cbs).map fun _ => { var with val := v }

/-- The writer is refused a read lock, and goes on without. -/
theorem refused_of_writing :
    Lock.acquire .read (⟨true, 0⟩ : CountingLock) = some ⟨true, 0⟩ := rfl

/-- A free lock is acquired. -/
theorem acquired_of_free :
    Lock.acquire .write CountingLock.free = some ⟨true, 0⟩ := rfl

/-- The writer gives the lock back. -/
theorem released_of_writing :
    Lock.release (⟨true, 0⟩ : CountingLock) = some .free := rfl

/-- A lock that is released once too often is broken. -/
theorem released_of_free : Lock.release CountingLock.free = some .broken := rfl

/-- **`setValue` in the scope of a write guard.**  Its read guard is refused and releases
the lock when it ends. -/
theorem setValue_of_writing (v : T) :
    setValue traits v { data := var, lock := (⟨true, 0⟩ : CountingLock) } =
      some (match var.assigned traits v with
        | .ok var => (.ok (), { data := var, lock := .free })
        | .error e => (.error e, { data := var, lock := .free })) := by
  have hcompare : compareAndNotify traits v { data := var, lock := (⟨true, 0⟩ : CountingLock) } =
      some (if traits.eq v var.val then .ok false
        else (notify var.val v var.cbs).map fun _ => true, { data := var, lock := .free }) := by
    have hrun : Program.access (fun var : ConfigVar T => if traits.eq v var.val then (.ok false, var)
          else ((notify var.val v var.cbs).map fun _ => true, var))
        { data := var, lock := (⟨true, 0⟩ : CountingLock) } =
        some (if traits.eq v var.val then .ok false
          else (notify var.val v var.cbs).map fun _ => true, { data := var, lock := ⟨true, 0⟩ }) := by
      unfold Program.access
      cases heq : traits.eq v var.val with
      | true => simp only [heq, if_true]
      | false => simp only [heq, Bool.false_eq_true, if_false]
    rw [compareAndNotify, Program.withGuard_eq refused_of_writing hrun released_of_writing]
  rw [assigned]
  unfold setValue Program.bind
  rw [hcompare]
  cases traits.eq v var.val with
  | true => rfl
  | false =>
      cases notify var.val v var.cbs with
      | ok _ => rfl
      | error e => rfl

/-- A text that does not convert. -/
theorem fromString_of_refused {val : String} {e : Thrown} (h : traits.fromStr val = .error e) :
    fromString traits val { data := var, lock := CountingLock.free } =
      some (match onException false e with
        | none => (.error e, { data := var, lock := .free })
        | some a => (.ok a, { data := var, lock := .free })) := by
  have hrun : Program.bind (.access fun var => (traits.fromStr val, var))
      (fun v => .bind (setValue traits v) fun _ => .access fun var => (.ok true, var))
      { data := var, lock := (⟨true, 0⟩ : CountingLock) } =
      some (.error e, { data := var, lock := ⟨true, 0⟩ }) := by
    simp only [Program.bind, Program.access, h]
  unfold fromString Program.catching
  rw [Program.withGuard_eq acquired_of_free hrun released_of_writing]
  cases e with
  | exception => rfl
  | other => rfl

/-- **A text that converts** leaves the lock broken. -/
theorem fromString_of_converted {val : String} {v : T} (h : traits.fromStr val = .ok v) :
    fromString traits val { data := var, lock := CountingLock.free } =
      some (match var.assigned traits v with
        | .ok var => (.ok true, { data := var, lock := .broken })
        | .error e =>
            match onException false e with
            | none => (.error e, { data := var, lock := .broken })
            | some a => (.ok a, { data := var, lock := .broken })) := by
  have hset := setValue_of_writing traits var v
  have hrun : Program.bind (.access fun var => (traits.fromStr val, var))
      (fun v => .bind (setValue traits v) fun _ => .access fun var => (.ok true, var))
      { data := var, lock := (⟨true, 0⟩ : CountingLock) } =
      some (match var.assigned traits v with
        | .ok var => (.ok true, { data := var, lock := .free })
        | .error e => (.error e, { data := var, lock := .free })) := by
    simp only [Program.bind, Program.access, h, hset]
    cases var.assigned traits v with
    | ok var => rfl
    | error e => rfl
  unfold fromString Program.catching
  cases hassigned : var.assigned traits v with
  | ok var' =>
      rw [hassigned] at hrun
      rw [Program.withGuard_eq acquired_of_free hrun released_of_free]
  | error e =>
      rw [hassigned] at hrun
      rw [Program.withGuard_eq acquired_of_free hrun released_of_free]
      cases e with
      | exception => rfl
      | other => rfl

/-- **`fromString` on a broken lock** does not return. -/
theorem fromString_of_broken (val : String) :
    fromString traits val { data := var, lock := CountingLock.broken } = none := by
  unfold fromString Program.catching
  rw [Program.write_of_broken rfl]

end ConfigVar

/-- A `std::string` as a text of characters. -/
def asString (text : Str) : String :=
  String.ofList (text.map fun c => Char.ofNat c.toNat)

/-- The text converts to the type of the variable. -/
def Traits.converts {T : Type} (traits : Traits T) (text : Str) : Bool :=
  match traits.fromStr (asString text) with
  | .ok _ => true
  | .error _ => false

/-- A `ConfigVar` of some type, with its `m_mutex`. -/
structure AnyVar where
  T : Type
  traits : Traits T
  var : ConfigVar T
  lock : CountingLock

namespace AnyVar

/-- `ConfigVarBase::fromString`. -/
def fromString (v : AnyVar) (text : Str) : Option (Except Thrown AnyVar) :=
  (ConfigVar.fromString v.traits (asString text) { data := v.var, lock := v.lock }).map fun r =>
    r.1.map fun _ => { v with var := r.2.data, lock := r.2.lock }

/-- The variable with its lock free. -/
def unlocked (v : AnyVar) : AnyVar :=
  { v with lock := .free }

def converts (v : AnyVar) (text : Str) : Bool :=
  v.traits.converts text

/-- What the conversion and the listeners throw is a `std::exception`. -/
structure Catches (v : AnyVar) : Prop where
  conversion : ∀ text, v.traits.fromStr text ≠ .error .other
  listeners : ∀ e ∈ v.var.cbs, ∀ old new, e.2 old new ≠ .error .other

/-- No listener lets anything out but a `std::exception`. -/
theorem Catches.notify {v : AnyVar} (h : v.Catches) (old new : v.T) :
    ConfigVar.notify old new v.var.cbs ≠ .error .other := by
  have hgeneral : ∀ cbs : List (Nat × Listener v.T),
      (∀ e ∈ cbs, ∀ old new, e.2 old new ≠ .error .other) →
      ConfigVar.notify old new cbs ≠ .error .other := by
    intro cbs hcbs
    induction cbs with
    | nil => exact nofun
    | cons e cbs ih =>
        rw [ConfigVar.notify]
        cases hcb : e.2 old new with
        | error thrown =>
            intro heq
            cases heq
            exact hcbs e List.mem_cons_self old new hcb
        | ok _ => exact ih fun e he => hcbs e (List.mem_cons_of_mem _ he)
  exact hgeneral v.var.cbs h.listeners

/-- The variable throws `std::exception`s only, and these texts convert. -/
def Converts (conv : Str → Bool) (v : AnyVar) : Prop :=
  v.Catches ∧ ∀ text, v.converts text = conv text

/-- What a call changes is the value and the lock. -/
theorem Converts.congr {conv : Str → Bool} {v : AnyVar} (h : Converts conv v) (x : v.T)
    (lock : CountingLock) :
    Converts conv { v with var := { v.var with val := x }, lock := lock } :=
  ⟨⟨h.1.conversion, h.1.listeners⟩, h.2⟩

/-- An assignment changes the value, or a listener has thrown a `std::exception`. -/
theorem Converts.assigned {conv : Str → Bool} {v : AnyVar} (h : Converts conv v) (x : v.T) :
    (∃ y, v.var.assigned v.traits x = .ok { v.var with val := y }) ∨
      v.var.assigned v.traits x = .error .exception := by
  unfold ConfigVar.assigned
  cases v.traits.eq x v.var.val with
  | true => exact .inl ⟨v.var.val, rfl⟩
  | false =>
      cases hnotify : ConfigVar.notify v.var.val x v.var.cbs with
      | ok _ => exact .inl ⟨x, rfl⟩
      | error thrown =>
          cases thrown with
          | exception => exact .inr rfl
          | other => exact absurd hnotify (h.1.notify _ _)

/-- **`ConfigVar`s** are variables with a lock. -/
theorem serves_configVar (conv : Str → Bool) :
    Serves AnyVar.fromString unlocked (fun v => Converts conv v ∧ v.lock = .free)
      (fun v => Converts conv v ∧ v.lock = .broken) (fun _ => false) conv where
  unlocked_of_ready v hv := by
    obtain ⟨T, traits, var, lock⟩ := v
    obtain ⟨-, rfl⟩ := hv
    rfl
  unlocked_of_stuck v hv := ⟨hv.1.congr v.var.val .free, rfl⟩
  blocks v text hv := by
    rw [AnyVar.fromString, hv.2, ConfigVar.fromString_of_broken]
    rfl
  throws v text hv hesc := by cases hesc
  keeps v text hv hesc hconv := by
    refine ⟨{ v with lock := .free }, ?_, hv.1.congr v.var.val .free, rfl⟩
    rw [← hv.1.2, AnyVar.converts, Traits.converts] at hconv
    cases hstr : v.traits.fromStr (asString text) with
    | ok x =>
        rw [hstr] at hconv
        cases hconv
    | error thrown =>
        rw [AnyVar.fromString, hv.2, ConfigVar.fromString_of_refused _ _ hstr]
        cases thrown with
        | exception => rfl
        | other => exact absurd hstr (hv.1.1.conversion _)
  breaks v text hv hesc hconv := by
    rw [← hv.1.2, AnyVar.converts, Traits.converts] at hconv
    cases hstr : v.traits.fromStr (asString text) with
    | error thrown =>
        rw [hstr] at hconv
        cases hconv
    | ok x =>
        rw [AnyVar.fromString, hv.2, ConfigVar.fromString_of_converted _ _ hstr]
        rcases hv.1.assigned x with ⟨y, hy⟩ | hthrown
        · rw [hy]
          exact ⟨_, rfl, hv.1.congr y .broken, rfl⟩
        · rw [hthrown]
          exact ⟨_, rfl, hv.1.congr v.var.val .broken, rfl⟩

end AnyVar

section Registered

variable {emit : Tree → Str} {root : Tree} {reg : Registry AnyVar}

/-- What converts for the variable of a name. -/
def Registry.converts (reg : Registry AnyVar) (name : Str) : Str → Bool :=
  ((reg.vars name).map AnyVar.converts).getD fun _ => false

/-- The texts that convert are those of the variable of the name. -/
theorem Registry.converts_eq {name : Str} {v : AnyVar} (hv : reg.vars name = some v) :
    reg.converts name = v.converts := by
  rw [Registry.converts, hv]
  rfl

/-- A variable with a free lock that catches is ready. -/
theorem Registry.ready (hreg : ∀ name v, reg.vars name = some v → v.Catches ∧ v.lock = .free)
    {name : Str} {v : AnyVar} (hv : reg.vars name = some v) :
    AnyVar.Converts (reg.converts name) v ∧ v.lock = .free := by
  obtain ⟨hcatches, hlock⟩ := hreg name v hv
  refine ⟨⟨hcatches, fun text => ?_⟩, hlock⟩
  rw [Registry.converts_eq hv]

/-- A document is loaded into `ConfigVar`s. -/
theorem loads_of_configVars
    (hreg : ∀ name v, reg.vars name = some v → v.Catches ∧ v.lock = .free)
    (htakes : ∀ name v, reg.vars name = some v →
      TakesAddressed emit root (fun _ _ => false) name ∧
        ConvertsLast v.converts (texts emit (taken name root))) :
    Loads (fun _ => AnyVar.fromString) AnyVar.unlocked emit reg root := by
  refine loads_of_serves (fun name _ => AnyVar.serves_configVar (reg.converts name))
    (fun name v hv => Registry.ready hreg hv) fun name hname => ?_
  obtain ⟨v, hv⟩ := Option.isSome_iff_exists.mp hname
  rw [Registry.converts_eq hv]
  exact htakes name v hv

/-- After a text that converts the next one is never taken. -/
theorem convertsLast_of_loads
    (hreg : ∀ name v, reg.vars name = some v → v.Catches ∧ v.lock = .free)
    (hloads : Loads (fun _ => AnyVar.fromString) AnyVar.unlocked emit reg root) {name : Str}
    {v : AnyVar} (hv : reg.vars name = some v) :
    ConvertsLast v.converts (texts emit (taken name root)) := by
  obtain ⟨reg', hload, -⟩ := hloads
  have hrel := fed_of_loadMembers hload name
  rw [handed_listAllMember, hv] at hrel
  generalize reg'.vars name = x at hrel
  cases hrel with
  | some hfed =>
      have hserves := AnyVar.serves_configVar (reg.converts name)
      rw [← Registry.converts_eq hv]
      exact ((hserves.feed_iff (Registry.ready hreg hv)).mp ⟨_, hfed⟩).2

end Registered

/-- A variable that holds a text. -/
def textVar (val : String) : AnyVar where
  T := String
  traits := ConfigVar.textTraits
  var := { val := val, cbs := [], funId := 0 }
  lock := .free

/-- A text converts, and nobody listens. -/
theorem textVar_catches (val : String) : (textVar val).Catches :=
  ⟨fun _ => by simp [textVar, ConfigVar.textTraits], fun _ he => absurd he List.not_mem_nil⟩

/-- A registry of one text. -/
def oneVar (name : String) (h : validName (ascii name) = true) : Registry AnyVar where
  vars := fun key => if key = ascii name then some (textVar "old") else none
  valid := by
    intro key hsome
    split at hsome
    · rename_i heq
      rwa [heq]
    · cases hsome

theorem oneVar_vars_self {name : String} (h : validName (ascii name) = true) :
    (oneVar name h).vars (ascii name) = some (textVar "old") := by
  change (if ascii name = ascii name then some (textVar "old") else none) = _
  exact if_pos rfl

theorem oneVar_vars {name : String} {h : validName (ascii name) = true} {key : Str} {v : AnyVar}
    (hv : (oneVar name h).vars key = some v) :
    key = ascii name ∧ v.Catches ∧ v.lock = .free := by
  obtain ⟨hkey, heq⟩ := Option.ite_none_right_eq_some.mp hv
  obtain rfl := Option.some.inj heq
  exact ⟨hkey, textVar_catches "old", rfl⟩

theorem validName_logLevel : validName (ascii "log.level") = true := by
  decide

/-- A document with a value under two keys. -/
def twoKeys (outer inner : String) : Tree :=
  .map [(ascii outer, .map [(ascii inner, .scalar (ascii "new"))])]

/-- The variable holds the text it is given. -/
theorem textVar_fromString : applied (fun _ => AnyVar.fromString) AnyVar.unlocked
    (ascii "log.level") (textVar "old") (ascii "new") = textVar "new" := by
  have htext : asString (ascii "new") = "new" := by decide
  have hne : ("new" == "old") = false := by decide
  have hassigned : ConfigVar.assigned ConfigVar.textTraits ⟨"old", [], 0⟩ "new" =
      .ok ⟨"new", [], 0⟩ := by
    rw [ConfigVar.assigned, show ConfigVar.textTraits.eq "new" "old" = false from hne]
    rfl
  have hconverts : ConfigVar.textTraits.fromStr "new" = .ok "new" := rfl
  have hcall := ConfigVar.fromString_of_converted ConfigVar.textTraits ⟨"old", [], 0⟩ hconverts
  rw [hassigned] at hcall
  have hfrom : (textVar "old").fromString (ascii "new") =
      some (.ok { textVar "new" with lock := .broken }) := by
    rw [AnyVar.fromString, htext]
    exact congrArg (Option.map fun r => r.1.map fun _ =>
      { textVar "old" with var := r.2.data, lock := r.2.lock }) hcall
  rw [applied, hfrom]
  rfl

end Config

end Agent
