import GServer.Library.Folds
import GServer.LogDefine
import GServer.Yaml

/-!
# The text of log definitions

`LexicalCast` between texts and sets of definitions, both ways through YAML documents.
Fields are written when they are not empty; the level of an appender must be there when
it is read.  What was read once is read back from what is written of it.
-/

namespace Agent

open Folds

open Http (Str ascii)

namespace Log

/-! ## Levels -/

/-- `LogLevelToString`. -/
def logLevelToString : LogLevel → Str
  | .DEBUG => ascii "DEBUG"
  | .INFO => ascii "INFO"
  | .WARN => ascii "WARN"
  | .ERROR => ascii "ERROR"
  | .FATAL => ascii "FATAL"
  | _ => ascii "UNKNOW"

/-- The comparisons of `FromStringToLogLevel`. -/
def levelNames : List (String × LogLevel) :=
  [("debug", .DEBUG), ("info", .INFO), ("warn", .WARN), ("error", .ERROR), ("fatal", .FATAL),
    ("DEBUG", .DEBUG), ("INFO", .INFO), ("WARN", .WARN), ("ERROR", .ERROR), ("FATAL", .FATAL)]

/-- `FromStringToLogLevel`. -/
def fromStringToLogLevel (str : Str) : LogLevel :=
  match levelNames.find? fun e => ascii e.1 == str with
  | some e => e.2
  | none => .UNKONWN

/-- The level has a name. -/
def LogLevel.Named : LogLevel → Prop
  | other _ => False
  | _ => True

/-- Every level that is read has a name. -/
theorem named_fromStringToLogLevel (str : Str) : (fromStringToLogLevel str).Named := by
  have hall : ∀ e ∈ levelNames, e.2.Named := by
    intro e he
    simp only [levelNames, List.mem_cons, List.not_mem_nil, or_false] at he
    rcases he with rfl | rfl | rfl | rfl | rfl | rfl | rfl | rfl | rfl | rfl <;> trivial
  rw [fromStringToLogLevel]
  cases hfind : levelNames.find? fun e => ascii e.1 == str with
  | none => trivial
  | some e => exact hall e (List.mem_of_find?_eq_some hfind)

/-- Levels with a name are read back, also the unknown one with its own spelling. -/
theorem fromString_toString {l : LogLevel} (h : l.Named) :
    fromStringToLogLevel (logLevelToString l) = l := by
  cases l with
  | other value => exact h.elim
  | UNKONWN | DEBUG | INFO | WARN | ERROR | FATAL => decide

section Casts

variable (y : YamlCpp)

/-! ## Reading -/

/-- A field that may be missing. -/
def readOptional (n : y.Node) (key : String) : Option Str := do
  match ← y.field n (ascii key) with
  | none => return []
  | some f => y.asString f

/-- The level of an appender; a missing one throws. -/
def readLevel (a : y.Node) : Option LogLevel := do
  match ← y.field a (ascii "level") with
  | none => none
  | some l =>
      let level ← y.asString l
      return if level = ascii "UNKNOW" then .UNKONWN else fromStringToLogLevel level

/-- Type and file of an appender; `none` inside for one that is left out. -/
def readTarget (a : y.Node) (type : Str) : Option (Option (Int × Str)) := do
  if type = ascii "FileLogAppender" then
    match ← y.field a (ascii "file") with
    | none => return none
    | some f =>
        let file ← y.asString f
        return some (1, file)
  else if type = ascii "SoutLogAppender" then return some (2, [])
  else return none

/-- One appender; `none` inside for one that is left out. -/
def readAppender (a : y.Node) : Option (Option LogAppenderDefine) := do
  match ← y.field a (ascii "type") with
  | none => return none
  | some t =>
      let type ← y.asString t
      match ← readTarget y a type with
      | none => return none
      | some (type, file) =>
          let level ← readLevel y a
          let formatter ← readOptional y a "formatter"
          return some { type := type, level := level, formatter := formatter, file := file }

/-- The appenders of a definition. -/
def readAppenders (n : y.Node) : Option (List LogAppenderDefine) := do
  match ← y.field n (ascii "appenders") with
  | none => return []
  | some as =>
      (List.range (y.size as)).foldlM (fun lads x => do
        let a ← y.index as x
        match ← readAppender y a with
        | none => return lads
        | some lad => return lads ++ [lad]) []

/-- One definition; `none` inside for one that is left out. -/
def readDefine (n : y.Node) : Option (Option LogDefine) := do
  match ← y.field n (ascii "name") with
  | none => return none
  | some f =>
      let name ← y.asString f
      let level ← readOptional y n "level"
      let formatter ← readOptional y n "formatter"
      let appenders ← readAppenders y n
      return some { name := name, level := fromStringToLogLevel level, formatter := formatter,
                    appenders := appenders }

/-- `LexicalCast<std::string, std::set<LogDefine>>`. -/
def fromText (v : Str) : Option LogDefines := do
  let node ← y.load v
  (List.range (y.size node)).foldlM (fun vec i => do
    let n ← y.index node i
    match ← readDefine y n with
    | none => return vec
    | some ld => return vec.insert ld) LogDefines.empty

/-! ## Writing -/

/-- A field that is written when it is not empty. -/
def optionalField (key : String) (text : Str) : List (Str × Tree) :=
  if text = [] then [] else [(ascii key, .scalar text)]

/-- The document of an appender. -/
def appenderTree (a : LogAppenderDefine) : Tree :=
  .map ((if a.type = 1 then
        [(ascii "type", .scalar (ascii "FileLogAppender")), (ascii "file", .scalar a.file)]
      else if a.type = 2 then [(ascii "type", .scalar (ascii "SoutLogAppender"))]
      else []) ++
    [(ascii "level", .scalar (logLevelToString a.level))] ++ optionalField "formatter" a.formatter)

/-- The document of a definition. -/
def defineTree (d : LogDefine) : Tree :=
  .map ([(ascii "name", .scalar d.name), (ascii "level", .scalar (logLevelToString d.level))] ++
    optionalField "formatter" d.formatter ++
    if d.appenders = [] then []
    else [(ascii "appenders", .seq (d.appenders.map appenderTree))])

/-- The document of a set, a null node if it is empty. -/
def definesTree (v : LogDefines) : Tree :=
  if v.val = [] then .null else .seq (v.val.map defineTree)

/-- `LexicalCast<std::set<LogDefine>, std::string>`. -/
def toText (v : LogDefines) : Str :=
  y.emit (definesTree v)

end Casts

/-! ## What can be read -/

/-- An appender that reading can give. -/
def LogAppenderDefine.Coded (a : LogAppenderDefine) : Prop :=
  a.level.Named ∧ (a.type = 1 ∨ (a.type = 2 ∧ a.file = []))

/-- A definition that reading can give. -/
def LogDefine.Coded (d : LogDefine) : Prop :=
  d.level.Named ∧ ∀ a ∈ d.appenders, a.Coded

section Coded

variable {y : YamlCpp}

/-- The level that is read of a node has a name. -/
theorem named_of_readLevel {a : y.Node} {level : LogLevel} (h : readLevel y a = some level) :
    level.Named := by
  obtain ⟨f, -, hlevel⟩ := Option.bind_eq_some_iff.mp h
  cases f with
  | none => cases hlevel
  | some l =>
      obtain ⟨text, -, htext⟩ := Option.bind_eq_some_iff.mp hlevel
      split at htext
      · cases htext
        trivial
      · cases htext
        exact named_fromStringToLogLevel text

/-- A target is a file, or the standard output without one. -/
theorem coded_of_readTarget {a : y.Node} {type file : Str} {t : Int}
    (h : readTarget y a type = some (some (t, file))) : t = 1 ∨ (t = 2 ∧ file = []) := by
  rw [readTarget] at h
  split at h
  · obtain ⟨f, -, hfile⟩ := Option.bind_eq_some_iff.mp h
    cases f with
    | none => cases hfile
    | some f =>
        obtain ⟨text, -, htext⟩ := Option.bind_eq_some_iff.mp hfile
        cases htext
        exact Or.inl rfl
  · split at h
    · cases h
      exact Or.inr ⟨rfl, rfl⟩
    · cases h

/-- An appender that is read is one that can be written. -/
theorem coded_of_readAppender {a : y.Node} {lad : LogAppenderDefine}
    (h : readAppender y a = some (some lad)) : lad.Coded := by
  obtain ⟨f, -, h⟩ := Option.bind_eq_some_iff.mp h
  cases f with
  | none => cases h
  | some t =>
      obtain ⟨type, -, h⟩ := Option.bind_eq_some_iff.mp h
      obtain ⟨target, htarget, h⟩ := Option.bind_eq_some_iff.mp h
      cases target with
      | none => cases h
      | some target =>
          obtain ⟨level, hlevel, h⟩ := Option.bind_eq_some_iff.mp h
          obtain ⟨formatter, -, h⟩ := Option.bind_eq_some_iff.mp h
          cases h
          exact ⟨named_of_readLevel hlevel, coded_of_readTarget htarget⟩

/-- The appenders that are read of a node can be written. -/
theorem coded_of_readAppenders {n : y.Node} {lads : List LogAppenderDefine}
    (h : readAppenders y n = some lads) : ∀ a ∈ lads, a.Coded := by
  obtain ⟨f, -, h⟩ := Option.bind_eq_some_iff.mp h
  cases f with
  | none =>
      cases h
      exact nofun
  | some as =>
      refine foldlM_invariant (I := fun lads : List LogAppenderDefine => ∀ a ∈ lads, a.Coded)
        ?_ _ (fun a ha => absurd ha List.not_mem_nil) h
      intro lads x lads' hlads hturn
      obtain ⟨a, -, hturn⟩ := Option.bind_eq_some_iff.mp hturn
      obtain ⟨read, hread, hturn⟩ := Option.bind_eq_some_iff.mp hturn
      cases read with
      | none =>
          cases hturn
          exact hlads
      | some lad =>
          cases hturn
          intro b hb
          rcases List.mem_append.mp hb with hb | hb
          · exact hlads b hb
          · obtain rfl := List.mem_singleton.mp hb
            exact coded_of_readAppender hread

/-- A definition that is read can be written. -/
theorem coded_of_readDefine {n : y.Node} {ld : LogDefine}
    (h : readDefine y n = some (some ld)) : ld.Coded := by
  obtain ⟨f, -, h⟩ := Option.bind_eq_some_iff.mp h
  cases f with
  | none => cases h
  | some f =>
      obtain ⟨name, -, h⟩ := Option.bind_eq_some_iff.mp h
      obtain ⟨level, -, h⟩ := Option.bind_eq_some_iff.mp h
      obtain ⟨formatter, -, h⟩ := Option.bind_eq_some_iff.mp h
      obtain ⟨appenders, happenders, h⟩ := Option.bind_eq_some_iff.mp h
      cases h
      exact ⟨named_fromStringToLogLevel level, coded_of_readAppenders happenders⟩

/-- Whatever text it is read from, every definition of the set has levels with names and
appenders of the two types, a file with the first only. -/
theorem coded_of_fromText {text : Str} {v : LogDefines} (h : fromText y text = some v) :
    ∀ d ∈ v.val, d.Coded := by
  obtain ⟨node, -, h⟩ := Option.bind_eq_some_iff.mp h
  refine foldlM_invariant (I := fun v : LogDefines => ∀ d ∈ v.val, d.Coded)
    ?_ _ (fun d hd => absurd hd List.not_mem_nil) h
  intro v i v' hv hturn
  obtain ⟨n, -, hturn⟩ := Option.bind_eq_some_iff.mp hturn
  obtain ⟨read, hread, hturn⟩ := Option.bind_eq_some_iff.mp hturn
  cases read with
  | none =>
      cases hturn
      exact hv
  | some ld =>
      cases hturn
      intro d hd
      rcases SortedSet.eq_or_mem_of_mem_insert hd with rfl | hd
      · exact coded_of_readDefine hread
      · exact hv d hd

end Coded

/-! ## Fields of a document -/

section Fields

variable {y : YamlCpp} {n : y.Node} {entries : List (Str × Tree)} {key : Str}

/-- A field of a map that was printed is read as its text. -/
theorem field_scalar (h : y.Shows n (.map entries)) (key text : Str)
    (hkey : entries.lookup key = some (.scalar text)) :
    ∃ f, y.field n key = some (some f) ∧ y.asString f = some text := by
  cases h with
  | map child hfield hentries =>
      refine ⟨child key, ?_, ?_⟩
      · rw [hfield, hkey, Option.map_some]
      · cases hentries key _ hkey with
        | scalar htext => exact htext

/-- A key that was not printed is missing. -/
theorem field_missing (h : y.Shows n (.map entries)) (hkey : entries.lookup key = none) :
    y.field n key = some none := by
  cases h with
  | map child hfield hentries => rw [hfield, hkey, Option.map_none]

/-- A field that is written when it is not empty is read as what it was. -/
theorem readOptional_eq (h : y.Shows n (.map entries)) (key : String) (text : Str)
    (hkey : entries.lookup (ascii key) = if text = [] then none else some (.scalar text)) :
    readOptional y n key = some text := by
  by_cases hempty : text = []
  · rw [if_pos hempty] at hkey
    rw [readOptional, field_missing h hkey, hempty]
    rfl
  · rw [if_neg hempty] at hkey
    obtain ⟨f, hf, htext⟩ := field_scalar h _ _ hkey
    rw [readOptional, hf]
    exact htext

/-- A text that is empty is not written. -/
theorem lookup_optionalField_self (key : String) (text : Str) :
    (optionalField key text).lookup (ascii key) =
      if text = [] then none else some (.scalar text) := by
  rw [optionalField]
  split
  · rfl
  · rw [List.lookup_cons, beq_self_eq_true]

/-- Another key is not there. -/
theorem lookup_optionalField_of_ne {key : String} {other : Str} (h : (other == ascii key) = false)
    (text : Str) : (optionalField key text).lookup other = none := by
  rw [optionalField]
  split
  · rfl
  · rw [List.lookup_cons, h]
    rfl

end Fields

/-! ## The round trip -/

section RoundTrip

variable {y : YamlCpp}

/-- The level is read back from its text. -/
theorem readLevel_eq {n : y.Node} {entries : List (Str × Tree)} (h : y.Shows n (.map entries))
    {level : LogLevel} (hnamed : level.Named)
    (hkey : entries.lookup (ascii "level") = some (.scalar (logLevelToString level))) :
    readLevel y n = some level := by
  obtain ⟨f, hf, htext⟩ := field_scalar h _ _ hkey
  have hread : (if logLevelToString level = ascii "UNKNOW" then LogLevel.UNKONWN
      else fromStringToLogLevel (logLevelToString level)) = level := by
    split
    · rename_i hunknown
      rw [← fromString_toString hnamed, hunknown]
      decide
    · exact fromString_toString hnamed
  rw [readLevel, hf]
  simp only [Option.bind_eq_bind, Option.bind_some, htext, hread]
  rfl

/-- An appender is read as it was written. -/
theorem readAppender_appenderTree {n : y.Node} {a : LogAppenderDefine} (ha : a.Coded)
    (h : y.Shows n (appenderTree a)) : readAppender y n = some (some a) := by
  have hlevelType : (ascii "level" == ascii "type") = false := by decide
  have hlevelFile : (ascii "level" == ascii "file") = false := by decide
  have hfileType : (ascii "file" == ascii "type") = false := by decide
  have hformatterType : (ascii "formatter" == ascii "type") = false := by decide
  have hformatterFile : (ascii "formatter" == ascii "file") = false := by decide
  have hformatterLevel : (ascii "formatter" == ascii "level") = false := by decide
  obtain ⟨type, level, formatter, file⟩ := a
  obtain ⟨hnamed, htype⟩ := ha
  simp only at hnamed htype
  rcases htype with rfl | ⟨rfl, rfl⟩
  · -- a file
    rw [appenderTree, if_pos rfl] at h
    simp only [List.cons_append, List.nil_append] at h
    obtain ⟨t, ht, htext⟩ := field_scalar h (ascii "type")
      (ascii "FileLogAppender") (by simp)
    obtain ⟨f, hf, hfile⟩ := field_scalar h (ascii "file") file
      (by simp [List.lookup_cons, hfileType])
    have hlevel := readLevel_eq h hnamed (by simp [List.lookup_cons, hlevelType, hlevelFile])
    have hformatter := readOptional_eq h "formatter" formatter (by
      simp only [List.lookup_cons, hformatterType, hformatterFile, hformatterLevel]
      exact lookup_optionalField_self "formatter" formatter)
    have htarget : readTarget y n (ascii "FileLogAppender") = some (some (1, file)) := by
      rw [readTarget, if_pos rfl, hf]
      simp only [Option.bind_eq_bind, Option.bind_some, hfile]
      rfl
    rw [readAppender, ht]
    simp only [Option.bind_eq_bind, Option.bind_some, htext, htarget, hlevel, hformatter]
    rfl
  · -- the standard output
    have htwo : ¬ (2 : Int) = 1 := by decide
    rw [appenderTree, if_neg htwo, if_pos rfl] at h
    simp only [List.cons_append, List.nil_append] at h
    obtain ⟨t, ht, htext⟩ := field_scalar h (ascii "type")
      (ascii "SoutLogAppender") (by simp)
    have hlevel := readLevel_eq h hnamed (by simp [List.lookup_cons, hlevelType])
    have hformatter := readOptional_eq h "formatter" formatter (by
      simp only [List.lookup_cons, hformatterType, hformatterLevel]
      exact lookup_optionalField_self "formatter" formatter)
    have htarget : readTarget y n (ascii "SoutLogAppender") = some (some (2, [])) := by
      have hne : ¬ ascii "SoutLogAppender" = ascii "FileLogAppender" := by decide
      rw [readTarget, if_neg hne, if_pos rfl]
      rfl
    rw [readAppender, ht]
    simp only [Option.bind_eq_bind, Option.bind_some, htext, htarget, hlevel, hformatter]
    rfl

/-- The appenders are read in their order. -/
theorem readAppenders_eq {n : y.Node} {entries : List (Str × Tree)}
    {as : List LogAppenderDefine} (h : y.Shows n (.map entries)) (has : ∀ a ∈ as, a.Coded)
    (hkey : entries.lookup (ascii "appenders") =
      if as = [] then none else some (.seq (as.map appenderTree))) :
    readAppenders y n = some as := by
  by_cases hempty : as = []
  · rw [if_pos hempty] at hkey
    rw [readAppenders, field_missing h hkey, hempty]
    rfl
  · rw [if_neg hempty] at hkey
    cases h with
    | map child hfield hentries =>
        have hf := hfield (ascii "appenders")
        rw [hkey, Option.map_some] at hf
        cases hentries _ _ hkey with
        | seq item hsize hindex hitems =>
            rw [readAppenders, hf]
            simp only [Option.bind_eq_bind, Option.bind_some]
            rw [hsize, List.length_map]
            rw [foldlM_range (g := fun lads a => lads ++ [a]) as]
            · exact congrArg some (foldl_concat as [])
            · intro lads i a hi
              have hmem : a ∈ as := List.mem_of_getElem? hi
              have hlt : i < (as.map appenderTree).length := by
                rw [List.length_map]
                exact (List.getElem?_eq_some_iff.mp hi).1
              have htree : (as.map appenderTree)[i]? = some (appenderTree a) := by
                rw [List.getElem?_map, hi, Option.map_some]
              rw [hindex i hlt]
              simp only [Option.bind_some,
                readAppender_appenderTree (has a hmem) (hitems i _ htree)]
              rfl

/-- A definition is read as it was written. -/
theorem readDefine_defineTree {n : y.Node} {d : LogDefine} (hd : d.Coded)
    (h : y.Shows n (defineTree d)) : readDefine y n = some (some d) := by
  have hlevelName : (ascii "level" == ascii "name") = false := by decide
  have hformatterName : (ascii "formatter" == ascii "name") = false := by decide
  have hformatterLevel : (ascii "formatter" == ascii "level") = false := by decide
  have hformatterAppenders : (ascii "formatter" == ascii "appenders") = false := by decide
  have happendersName : (ascii "appenders" == ascii "name") = false := by decide
  have happendersLevel : (ascii "appenders" == ascii "level") = false := by decide
  have happendersFormatter : (ascii "appenders" == ascii "formatter") = false := by
    decide
  obtain ⟨name, level, formatter, appenders⟩ := d
  obtain ⟨hnamed, happenders⟩ := hd
  rw [defineTree] at h
  simp only [List.cons_append, List.nil_append] at h hnamed happenders
  obtain ⟨f, hf, hname⟩ := field_scalar h (ascii "name") name (by simp)
  have hlevel := readOptional_eq h "level" (logLevelToString level) (by
    have hne : logLevelToString level ≠ [] := by
      cases level with
      | other value => exact hnamed.elim
      | UNKONWN | DEBUG | INFO | WARN | ERROR | FATAL => decide
    simp [List.lookup_cons, hlevelName, hne])
  have hformatter := readOptional_eq h "formatter" formatter (by
    simp only [List.lookup_cons, hformatterName, hformatterLevel, List.lookup_append,
      lookup_optionalField_self]
    by_cases hempty : formatter = []
    · by_cases hnone : appenders = []
      · simp [hempty, hnone]
      · simp [hempty, hnone, List.lookup_cons, hformatterAppenders]
    · simp [hempty])
  have hlads := readAppenders_eq h happenders (by
    simp only [List.lookup_cons, happendersName, happendersLevel, List.lookup_append,
      lookup_optionalField_of_ne happendersFormatter, Option.none_or]
    by_cases hnone : appenders = []
    · simp [hnone]
    · simp [hnone])
  rw [readDefine, hf]
  simp only [Option.bind_eq_bind, Option.bind_some, hname, hlevel, hformatter, hlads,
    fromString_toString hnamed]
  rfl

/-- Every set of definitions that reading can give is read back from the text that is
written of it: the empty set, levels without a name of their own and loggers without
appenders among them. -/
theorem fromText_toText_of_coded {v : LogDefines} (hcoded : ∀ d ∈ v.val, d.Coded)
    (hback : y.ReadsBack (definesTree v)) : fromText y (toText y v) = some v := by
  obtain ⟨node, hload, hshows⟩ := hback
  rw [fromText, toText, hload]
  simp only [Option.bind_eq_bind, Option.bind_some]
  by_cases hempty : v.val = []
  · rw [definesTree, if_pos hempty] at hshows
    cases hshows with
    | null hsize =>
        rw [hsize]
        exact congrArg some (Subtype.ext hempty.symm)
  · rw [definesTree, if_neg hempty] at hshows
    cases hshows with
    | seq item hsize hindex hitems =>
        rw [hsize, List.length_map, foldlM_range (g := LogDefines.insert) v.val]
        · exact congrArg some v.foldl_insert
        · intro vec i d hi
          have hmem : d ∈ v.val := List.mem_of_getElem? hi
          have hlt : i < (v.val.map defineTree).length := by
            rw [List.length_map]
            exact (List.getElem?_eq_some_iff.mp hi).1
          have htree : (v.val.map defineTree)[i]? = some (defineTree d) := by
            rw [List.getElem?_map, hi, Option.map_some]
          rw [hindex i hlt]
          simp only [Option.bind_some,
            readDefine_defineTree (hcoded d hmem) (hitems i _ htree)]
          rfl

/-- **Round trip.**  A set that was read from any text is read back from the text that is
written of it, if that text is loaded as the document that was printed. -/
theorem fromText_toText {text : Str} {v : LogDefines} (hv : fromText y text = some v)
    (hback : y.ReadsBack (definesTree v)) : fromText y (toText y v) = some v :=
  fromText_toText_of_coded (coded_of_fromText hv) hback

end RoundTrip

/-! ## One text -/

/-- A logger that prints warnings to the standard output, without a level for the
appender. -/
def warnings : LogDefines :=
  LogDefines.empty.insert
    ⟨ascii "system", .WARN, [], [⟨2, .UNKONWN, [], []⟩]⟩

def warningsText : Str :=
  ascii "- name: system\n  level: WARN\n  appenders:\n    - type: SoutLogAppender\n      level: UNKNOW"

/-- The text of one logger is read, written and read again. -/
theorem fromText_toText_warnings :
    let y := YamlCpp.knowing warningsText (definesTree warnings)
    fromText y warningsText = some warnings ∧ fromText y (toText y warnings) = some warnings := by
  intro y
  have hread : fromText y warningsText = some warnings := by decide
  exact ⟨hread, fromText_toText hread (YamlCpp.knowing_readsBack _ _)⟩

end Log

end Agent
