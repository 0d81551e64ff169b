import GServer.Http
import GServer.Yaml

/-!
# The members of a document

`ListAllMember` lists the nodes of a document, each under the keys on its path joined by
dots.  It ends at every key that has a character outside the set of `Lookup`, an
upper-case letter for instance.  The nodes that `LoadFromYaml` takes for a name are those
it lists under it, and in an ordinary document those are the nodes whose path is the name,
but for the ones with an upper-case letter.
-/

namespace Agent

open Http (Str ascii toLower EqualIgnoringCase)

namespace Config

/-! ## The source -/

/-- The characters that `Lookup` and `ListAllMember` allow. -/
def nameChars : Str :=
  ascii "abcdefghijklmnopqrstuvwxyz._0123456789"

/-- `find_first_not_of` finds no other character. -/
def validName (name : Str) : Bool :=
  name.all fun c => nameChars.contains c

/-- The name of a member. -/
def memberName (pre key : Str) : Str :=
  if pre = [] then key else pre ++ [46] ++ key

mutual

/-- `ListAllMember`. -/
def listAllMember (pre : Str) : Tree → List (Str × Tree)
  | .map entries =>
      if validName pre then (pre, .map entries) :: listMembers pre entries else []
  | .null => if validName pre then [(pre, .null)] else []
  | .scalar text => if validName pre then [(pre, .scalar text)] else []
  | .seq items => if validName pre then [(pre, .seq items)] else []

/-- The loop of `ListAllMember` over the entries of a map. -/
def listMembers (pre : Str) : List (Str × Tree) → List (Str × Tree)
  | [] => []
  | (key, node) :: entries =>
      listAllMember (memberName pre key) node ++ listMembers pre entries

end

/-! ## What it is for -/

mutual

/-- The nodes of a document in order, each with the keys on its path. -/
def nodes (path : List Str) : Tree → List (List Str × Tree)
  | .map entries => (path, .map entries) :: nodesOf path entries
  | .null => [(path, .null)]
  | .scalar text => [(path, .scalar text)]
  | .seq items => [(path, .seq items)]

def nodesOf (path : List Str) : List (Str × Tree) → List (List Str × Tree)
  | [] => []
  | (key, node) :: entries => nodes (path ++ [key]) node ++ nodesOf path entries

end

/-- A path with dots between its keys. -/
def dotted (path : List Str) : Str :=
  [46].intercalate path

/-- The nodes whose path is the name ignoring case. -/
def addressed (name : Str) (root : Tree) : List (List Str × Tree) :=
  (nodes [] root).filter fun n => decide (EqualIgnoringCase (dotted n.1) name)

/-- The keys of a path as `ListAllMember` joins them: empty keys in front leave no
trace. -/
def joined (path : List Str) : Str :=
  path.foldl memberName []

/-- The nodes that are given to the variable of this name: no key on the path has a
character that is not allowed, and the name is not empty. -/
def taken (name : Str) (root : Tree) : List (List Str × Tree) :=
  (nodes [] root).filter fun n =>
    n.1.all validName && decide (joined n.1 = name) && decide (name ≠ [])

/-! ## The list of members -/

/-- A member has a valid name exactly when prefix and key have. -/
theorem validName_memberName (pre key : Str) :
    validName (memberName pre key) = (validName pre && validName key) := by
  rw [memberName]
  split
  · rename_i hpre
    rw [hpre]
    rfl
  · have hdot : nameChars.contains 46 = true := by decide
    simp only [validName, List.all_append, List.all_cons, List.all_nil, hdot, Bool.and_true]

/-- A joined name is valid exactly when all keys are. -/
theorem validName_joined (path : List Str) : validName (joined path) = path.all validName := by
  have hgeneral : ∀ (path : List Str) (pre : Str),
      validName (path.foldl memberName pre) = (validName pre && path.all validName) := by
    intro path
    induction path with
    | nil => exact fun pre => (Bool.and_true _).symm
    | cons key path ih =>
        intro pre
        rw [List.foldl_cons, ih, validName_memberName, List.all_cons, Bool.and_assoc]
  exact hgeneral path []

/-- One more key is joined as a member. -/
theorem joined_append (path : List Str) (key : Str) :
    joined (path ++ [key]) = memberName (joined path) key := by
  rw [joined, List.foldl_append]
  rfl

/-- The members of a part of the document: its nodes without a character that is not
allowed on their paths. -/
def validNodes (ns : List (List Str × Tree)) : List (Str × Tree) :=
  (ns.filter fun n => n.1.all validName).map fun n => (joined n.1, n.2)

/-- The valid nodes of two lists are those of both. -/
theorem validNodes_append (ns ns' : List (List Str × Tree)) :
    validNodes (ns ++ ns') = validNodes ns ++ validNodes ns' := by
  rw [validNodes, List.filter_append, List.map_append]
  rfl

/-- A node is valid if its joined name is. -/
theorem validNodes_singleton (path : List Str) (node : Tree) :
    validNodes [(path, node)] = if validName (joined path) then [(joined path, node)] else [] := by
  rw [validName_joined, validNodes, List.filter_cons]
  split <;> rfl

/-- Below an invalid name nothing is listed. -/
theorem listAllMember_of_invalid {pre : Str} (h : validName pre = false) (t : Tree) :
    listAllMember pre t = [] := by
  cases t <;> simp [listAllMember, h]

/-- The entries below an invalid name are not listed. -/
theorem listMembers_of_invalid {pre : Str} (h : validName pre = false)
    (entries : List (Str × Tree)) : listMembers pre entries = [] := by
  induction entries with
  | nil => rfl
  | cons e entries ih =>
      have hmember : validName (memberName pre e.1) = false := by
        rw [validName_memberName, h, Bool.false_and]
      rw [listMembers, listAllMember_of_invalid hmember, ih]
      rfl

/-- **What is listed.**  The list of `ListAllMember` holds the nodes whose keys are all
valid, in the order of the document. -/
theorem listAllMember_eq (t : Tree) (path : List Str) :
    listAllMember (joined path) t = validNodes (nodes path t) := by
  induction t generalizing path with
  | null | scalar _ | seq _ _ =>
      rw [nodes, validNodes_singleton]
      rfl
  | map entries ih =>
      have hmembers : listMembers (joined path) entries = validNodes (nodesOf path entries) := by
        induction entries with
        | nil => rfl
        | cons e entries ihentries =>
            have hhead := ih e List.mem_cons_self (path ++ [e.1])
            rw [joined_append] at hhead
            rw [listMembers, nodesOf, validNodes_append, hhead,
              ihentries fun e he => ih e (List.mem_cons_of_mem _ he)]
      change _ = validNodes ([(path, .map entries)] ++ nodesOf path entries)
      rw [listAllMember, validNodes_append, validNodes_singleton, ← hmembers]
      split
      · rfl
      · rename_i hinvalid
        rw [listMembers_of_invalid (by simpa using hinvalid)]
        rfl

/-! ## Names -/

/-- The characters of a name are in lower case already. -/
theorem toLower_of_valid {c : UInt8} (h : nameChars.contains c = true) : toLower c = c := by
  have hall : nameChars.all (fun c => toLower c == c) = true := by decide
  exact beq_iff_eq.mp (List.all_eq_true.mp hall c (List.contains_iff_mem.mp h))

/-- A valid name is in lower case already. -/
theorem map_toLower_of_valid {name : Str} (h : validName name = true) :
    name.map toLower = name := by
  rw [validName, List.all_eq_true] at h
  exact (List.map_congr_left fun c hc => toLower_of_valid (h c hc)).trans (List.map_id name)

/-! ## Ordinary documents -/

/-- No path begins with an empty key. -/
def OrdinaryPaths (root : Tree) : Prop :=
  ∀ n ∈ nodes [] root, n.1.head? ≠ some []

/-- The path is that of a key without an upper-case letter. -/
def LowerCasePath (path : List Str) : Prop :=
  path ≠ [] ∧ ∀ key ∈ path, key.map toLower = key

instance (path : List Str) : Decidable (LowerCasePath path) :=
  inferInstanceAs (Decidable (_ ∧ _))

/-- Two keys have a dot between them. -/
theorem dotted_cons_cons (key key' : Str) (path : List Str) :
    dotted (key :: key' :: path) = key ++ [46] ++ dotted (key' :: path) := by
  simp [dotted, List.intercalate, List.intersperse]

/-- A prefix of the first key stands in front. -/
theorem dotted_append_cons (a b : Str) (path : List Str) :
    dotted ((a ++ b) :: path) = a ++ dotted (b :: path) := by
  cases path with
  | nil => simp [dotted, List.intercalate]
  | cons key path => simp only [dotted_cons_cons, List.append_assoc]

/-- A path that does not begin with an empty key is joined with all its dots. -/
theorem joined_eq_dotted {key : Str} (hkey : key ≠ []) (path : List Str) :
    joined (key :: path) = dotted (key :: path) := by
  have hgeneral : ∀ (path : List Str) (pre : Str), pre ≠ [] →
      path.foldl memberName pre = dotted (pre :: path) := by
    intro path
    induction path with
    | nil =>
        intro pre _
        simp [dotted, List.intercalate]
    | cons key path ih =>
        intro pre hpre
        have hmember : memberName pre key ≠ [] := by
          rw [memberName, if_neg hpre]
          simp
        rw [List.foldl_cons, ih _ hmember, memberName, if_neg hpre, dotted_append_cons,
          dotted_cons_cons]
  exact hgeneral path key hkey

/-- A path with a first key has a name. -/
theorem dotted_ne_nil {key : Str} (hkey : key ≠ []) (path : List Str) :
    dotted (key :: path) ≠ [] := by
  cases path with
  | nil => simpa [dotted, List.intercalate] using hkey
  | cons key' path =>
      rw [dotted_cons_cons]
      simp

/-- The characters of a key are those of the path. -/
theorem mem_dotted {path : List Str} {key : Str} (hkey : key ∈ path) {c : UInt8} (hc : c ∈ key) :
    c ∈ dotted path := by
  induction path with
  | nil => cases hkey
  | cons key' path ih =>
      cases path with
      | nil =>
          obtain rfl := List.mem_singleton.mp hkey
          simpa [dotted, List.intercalate] using hc
      | cons key'' path =>
          rw [dotted_cons_cons, List.mem_append, List.mem_append]
          rcases List.mem_cons.mp hkey with rfl | hkey
          · exact Or.inl (Or.inl hc)
          · exact Or.inr (ih hkey)

/-- The keys of a path that is a valid name ignoring case are valid unless they have an
upper-case letter. -/
theorem all_valid_iff {path : List Str} {name : Str} (hname : validName name = true)
    (h : EqualIgnoringCase (dotted path) name) :
    path.all validName = true ↔ ∀ key ∈ path, key.map toLower = key := by
  rw [List.all_eq_true]
  constructor
  · exact fun hvalid key hkey => map_toLower_of_valid (hvalid key hkey)
  · intro hlower key hkey
    rw [validName, List.all_eq_true]
    intro c hc
    have hsame : toLower c = c := by
      have hmap := hlower key hkey
      rw [← List.map_id key, List.map_map] at hmap
      exact List.map_inj_left.mp hmap c hc
    have hmem : toLower c ∈ name := by
      rw [← map_toLower_of_valid hname, ← h]
      exact List.mem_map_of_mem (mem_dotted hkey hc)
    rw [validName, List.all_eq_true] at hname
    rw [← hsame]
    exact hname _ hmem

/-- In an ordinary document the nodes that are taken are those of the addressed ones that
have no upper-case letter on their paths. -/
theorem taken_eq_filter {root : Tree} (hroot : OrdinaryPaths root) {name : Str}
    (hname : validName name = true) :
    taken name root = (addressed name root).filter fun n => decide (LowerCasePath n.1) := by
  rw [taken, addressed, List.filter_filter]
  refine List.filter_congr fun n hn => ?_
  rw [Bool.eq_iff_iff]
  simp only [Bool.and_eq_true, decide_eq_true_eq]
  obtain ⟨path, node⟩ := n
  cases path with
  | nil =>
      refine iff_of_false ?_ fun h => h.1.1 rfl
      rintro ⟨⟨-, rfl⟩, hne⟩
      exact hne rfl
  | cons key path =>
      have hkey : key ≠ [] := fun hempty => hroot _ hn (by rw [hempty]; rfl)
      rw [joined_eq_dotted hkey]
      constructor
      · rintro ⟨⟨hvalid, rfl⟩, -⟩
        refine ⟨⟨List.cons_ne_nil key path, ?_⟩, EqualIgnoringCase.refl _⟩
        exact (all_valid_iff hname (EqualIgnoringCase.refl _)).mp hvalid
      · rintro ⟨⟨-, hlower⟩, hequal⟩
        have hvalid := (all_valid_iff hname hequal).mpr hlower
        have hjoined : dotted (key :: path) = name := by
          have hdotted := (validName_joined (key :: path)).trans hvalid
          rw [joined_eq_dotted hkey] at hdotted
          rw [← map_toLower_of_valid hdotted, ← map_toLower_of_valid hname]
          exact hequal
        exact ⟨⟨hvalid, hjoined⟩, hjoined ▸ dotted_ne_nil hkey path⟩

end Config

end Agent
