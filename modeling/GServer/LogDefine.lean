import GServer.HttpParser
import GServer.Library.SortedSet
import Mathlib.Data.List.Nodup

/-!
# Log definitions

The value of `g_log_defines`: a set of definitions, ordered by their names.
-/

namespace Agent

open Http (Str ascii)

namespace Log

/-- `LogLevel`; `other` is a value that a cast makes and that has no name. -/
inductive LogLevel
  | UNKONWN | DEBUG | INFO | WARN | ERROR | FATAL
  | other (value : Int)
deriving DecidableEq

/-- The value of a level. -/
def LogLevel.toInt : LogLevel → Int
  | UNKONWN => 0
  | DEBUG => 1
  | INFO => 2
  | WARN => 3
  | ERROR => 4
  | FATAL => 5
  | other value => value

/-- `LogAppenderDefine`; `type` is 1 for a file and 2 for the standard output. -/
structure LogAppenderDefine where
  type : Int
  level : LogLevel
  formatter : Str
  file : Str
deriving DecidableEq

/-- `LogDefine`; equality is `operator==`. -/
structure LogDefine where
  name : Str
  level : LogLevel
  formatter : Str
  appenders : List LogAppenderDefine
deriving DecidableEq

/-- `LogDefine::operator<`. -/
def LogDefine.less (a b : LogDefine) : Bool :=
  decide (a.name < b.name)

/-- `std::set<LogDefine>`. -/
abbrev LogDefines : Type := { ds : List LogDefine // SortedSet.Sorted LogDefine.less ds }

/-- The order of the definitions is transitive. -/
theorem less_trans (a b c : LogDefine) (hab : a.less b = true) (hbc : b.less c = true) :
    a.less c = true := by
  have hab : a.name < b.name := of_decide_eq_true hab
  have hbc : b.name < c.name := of_decide_eq_true hbc
  exact decide_eq_true (List.lt_trans hab hbc)

/-- `std::set::insert`. -/
def LogDefines.insert (ds : LogDefines) (d : LogDefine) : LogDefines :=
  ⟨SortedSet.insert LogDefine.less d ds.val, ds.property.insert_of_trans less_trans⟩

def LogDefines.empty : LogDefines :=
  ⟨[], List.Pairwise.nil⟩

/-- Inserting the definitions of a set in its order gives that set. -/
theorem LogDefines.foldl_insert (ds : LogDefines) :
    ds.val.foldl LogDefines.insert LogDefines.empty = ds := by
  have hval : ∀ (xs : List LogDefine) (acc : LogDefines), (xs.foldl LogDefines.insert acc).val =
      xs.foldl (fun l d => SortedSet.insert LogDefine.less d l) acc.val := by
    intro xs
    induction xs with
    | nil => exact fun _ => rfl
    | cons x xs ih => exact fun acc => ih (acc.insert x)
  apply Subtype.ext
  rw [hval, SortedSet.foldl_insert _ _ ds.property]
  rfl

/-- The names of a set are different. -/
theorem LogDefines.nodup (ds : LogDefines) : (ds.val.map LogDefine.name).Nodup := by
  rw [List.nodup_iff_pairwise_ne, List.pairwise_map]
  refine ds.property.imp ?_
  intro a b hless heq
  have hlt : a.name < b.name := of_decide_eq_true hless
  rw [heq] at hlt
  exact List.lt_irrefl _ hlt

/-- `find`: the definition with this name. -/
def LogDefines.find (ds : LogDefines) (name : Str) : Option LogDefine :=
  ds.val.find? fun d => d.name == name

/-- A name is found when a definition of the set has it. -/
theorem LogDefines.find_eq_some {ds : LogDefines} {name : Str} {d : LogDefine} :
    ds.find name = some d ↔ d ∈ ds.val ∧ d.name = name := by
  constructor
  · intro h
    exact ⟨List.mem_of_find?_eq_some h, by simpa using List.find?_some h⟩
  · rintro ⟨hmem, rfl⟩
    cases hfind : ds.find d.name with
    | none =>
        rw [LogDefines.find, List.find?_eq_none] at hfind
        exact absurd (beq_self_eq_true d.name) (hfind d hmem)
    | some e =>
        have he := List.mem_of_find?_eq_some hfind
        have hname : e.name = d.name := by simpa using List.find?_some hfind
        exact congrArg some (List.inj_on_of_nodup_map ds.nodup he hmem hname)

/-- A name is not found when no definition has it. -/
theorem LogDefines.find_eq_none {ds : LogDefines} {name : Str} :
    ds.find name = none ↔ name ∉ ds.val.map LogDefine.name := by
  rw [LogDefines.find, List.find?_eq_none, List.mem_map]
  constructor
  · rintro h ⟨d, hd, rfl⟩
    exact h d hd (beq_self_eq_true _)
  · intro h d hd heq
    exact h ⟨d, hd, by simpa using heq⟩

end Log

end Agent
