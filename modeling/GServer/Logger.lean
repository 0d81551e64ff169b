import GServer.LogDefine
import GServer.Library.Runs
import Mathlib.Logic.Function.Basic

/-!
# Applying a log configuration

The listener of `g_log_defines` goes through the new definitions and changes their
loggers, then disables the loggers whose definition has gone.  A logger belongs to the
manager under its name and keeps what the listener does not set.  A formatter is known
by its pattern, and `isError` says which patterns do not parse.  A call on a null pointer
has no result.
-/

namespace Agent

open Runs

open Http (Str ascii)

namespace Log

/-- Where an appender writes. -/
inductive Target
  | file (name : Str)
  | sout
deriving DecidableEq

/-- `LogAppender`; the formatter may be null. -/
structure LogAppender where
  target : Target
  level : LogLevel
  formatter : Option Str
  hasFormatter : Bool
deriving DecidableEq

/-- `Logger`, as far as it can be configured. -/
structure Logger where
  level : LogLevel
  formatter : Str
  appenders : List LogAppender
deriving DecidableEq

/-- The pattern of a new logger. -/
def defaultPattern : Str :=
  ascii "[%d\x7b%Y-%m-%d %H:%M:%S\x7d] [%N:%t:COR_%C]%T%[%c][%p]%T(%f:%l)%T%m%n"

/-- `LogAppender::setFormatter`. -/
def LogAppender.setFormatter (a : LogAppender) (formatter : Option Str) : LogAppender :=
  { a with formatter := formatter, hasFormatter := formatter.isSome }

namespace Logger

/-- `Logger::Logger`. -/
def new : Logger where
  level := .DEBUG
  formatter := defaultPattern
  appenders := []

def setLevel (l : Logger) (level : LogLevel) : Logger :=
  { l with level := level }

/-- `Logger::setFormatter` on a formatter. -/
def setFormatter (l : Logger) (val : Str) : Logger :=
  { l with
    formatter := val
    appenders := l.appenders.map fun a =>
      if a.hasFormatter then a else { a with formatter := some val } }

/-- `Logger::setFormatter` on a pattern. -/
def setPattern (isError : Str → Bool) (l : Logger) (val : Str) : Logger :=
  if isError val then l else l.setFormatter val

def clearAppenders (l : Logger) : Logger :=
  { l with appenders := [] }

/-- `Logger::addAppender`. -/
def addAppender (l : Logger) (a : LogAppender) : Logger :=
  { l with
    appenders := l.appenders ++
      [match a.formatter with
        | some _ => a
        | none => { a with formatter := some l.formatter }] }

end Logger

/-- `LoggerManager::m_logger_map`. -/
abbrev LoggerMap : Type := Str → Option Logger

/-- The logger of `getLogger`, which makes one if there is none. -/
def getLogger (m : LoggerMap) (name : Str) : Logger :=
  (m name).getD Logger.new

section Listener

variable (isError : Str → Bool)

/-- The appender of a definition, for a logger with this formatter. -/
def makeAppender (formatter : Str) (a : LogAppenderDefine) : Option LogAppender :=
  let ap : Option LogAppender :=
    if a.type = 1 then some ⟨.file a.file, .DEBUG, none, false⟩
    else if a.type = 2 then some ⟨.sout, .DEBUG, none, false⟩
    else none
  ap.map fun ap =>
    let ap := { ap with level := a.level }
    if a.formatter ≠ [] then
      if isError a.formatter then ap else ap.setFormatter (some a.formatter)
    else ap.setFormatter (some formatter)

/-- What the listener does with the logger of a definition. -/
def configure (l : Logger) (d : LogDefine) : Option Logger :=
  let l := l.setLevel d.level
  let l := if d.formatter ≠ [] then l.setPattern isError d.formatter else l
  let l := l.clearAppenders
  d.appenders.foldlM (fun l a => (makeAppender isError l.formatter a).map l.addAppender) l

/-- One turn of the loop over the new definitions: for a definition that is in the old
set as it is, `logger` stays null. -/
def applyDefine (old : LogDefines) (m : LoggerMap) (d : LogDefine) : Option LoggerMap :=
  let logger : Option Logger :=
    match old.find d.name with
    | none => some (getLogger m d.name)
    | some e => if d = e then none else some (getLogger m d.name)
  (logger.bind fun l => configure isError l d).map fun l => Function.update m d.name (some l)

/-- One turn of the loop over the old definitions. -/
def dropDefine (new : LogDefines) (m : LoggerMap) (d : LogDefine) : LoggerMap :=
  match new.find d.name with
  | some _ => m
  | none =>
      Function.update m d.name
        (some (((getLogger m d.name).setLevel (.other 100)).clearAppenders))

/-- The listener of `g_log_defines`. -/
def listener (old new : LogDefines) (m : LoggerMap) : Option LoggerMap :=
  (new.val.foldlM (applyDefine isError old) m).map fun m => old.val.foldl (dropDefine new) m

/-! ## One definition -/

/-- The formatter of a logger that had `formatter` before. -/
def formatterAfter (formatter : Str) (d : LogDefine) : Str :=
  if d.formatter = [] ∨ isError d.formatter = true then formatter else d.formatter

/-- The appenders of a definition can be made. -/
def Typed (d : LogDefine) : Prop :=
  ∀ a ∈ d.appenders, a.type = 1 ∨ a.type = 2

/-- The appender that a definition adds to a logger with this formatter. -/
def addedAppender (formatter : Str) (a : LogAppenderDefine) : Option LogAppender :=
  (makeAppender isError formatter a).map fun ap =>
    match ap.formatter with
    | some _ => ap
    | none => { ap with formatter := some formatter }

/-- The appenders of the two types are made. -/
theorem addedAppender_isSome (formatter : Str) (a : LogAppenderDefine) :
    (addedAppender isError formatter a).isSome ↔ a.type = 1 ∨ a.type = 2 := by
  rw [addedAppender, makeAppender, Option.isSome_map, Option.isSome_map]
  by_cases hfile : a.type = 1
  · simp [hfile]
  · by_cases hsout : a.type = 2
    · simp [hsout]
    · simp [hfile, hsout]

/-- The appenders are added one after the other, the rest of the logger being left
alone. -/
theorem foldlM_addAppender (as : List LogAppenderDefine) (l : Logger) :
    (as.foldlM (fun l a => (makeAppender isError l.formatter a).map l.addAppender) l) =
      (as.mapM (addedAppender isError l.formatter)).map fun aps =>
        { l with appenders := l.appenders ++ aps } := by
  induction as generalizing l with
  | nil => simp
  | cons a as ih =>
      rw [List.foldlM_cons, List.mapM_cons, addedAppender]
      cases hmake : makeAppender isError l.formatter a with
      | none => rfl
      | some ap =>
          simp only [Option.map_some, Option.bind_eq_bind, Option.bind_some]
          rw [ih]
          have hformatter : (l.addAppender ap).formatter = l.formatter := rfl
          rw [hformatter]
          cases as.mapM (addedAppender isError l.formatter) with
          | none => rfl
          | some aps => simp [Logger.addAppender]

/-- What a definition makes of a logger depends on the formatter that the logger had and
on nothing else of it. -/
theorem configure_eq (l : Logger) (d : LogDefine) :
    configure isError l d =
      (d.appenders.mapM (addedAppender isError (formatterAfter isError l.formatter d))).map
        fun aps => ⟨d.level, formatterAfter isError l.formatter d, aps⟩ := by
  have hset : (if d.formatter ≠ [] then (l.setLevel d.level).setPattern isError d.formatter
      else l.setLevel d.level).clearAppenders =
      ⟨d.level, formatterAfter isError l.formatter d, []⟩ := by
    rw [formatterAfter]
    by_cases hempty : d.formatter = []
    · simp [hempty, Logger.setLevel, Logger.clearAppenders]
    · cases herror : isError d.formatter with
      | false => simp [hempty, herror, Logger.setPattern, Logger.setLevel,
          Logger.setFormatter, Logger.clearAppenders]
      | true => simp [hempty, herror, Logger.setPattern, Logger.setLevel, Logger.clearAppenders]
  unfold configure
  rw [foldlM_addAppender, hset]
  rfl

/-- The formatter after a definition. -/
theorem configure_formatter {l l' : Logger} {d : LogDefine}
    (h : configure isError l d = some l') :
    l'.formatter = formatterAfter isError l.formatter d := by
  rw [configure_eq] at h
  obtain ⟨aps, -, rfl⟩ := Option.map_eq_some_iff.mp h
  rfl

/-- The outcome depends on the formatter only. -/
theorem configure_congr {l l' : Logger} {d : LogDefine}
    (h : formatterAfter isError l.formatter d = formatterAfter isError l'.formatter d) :
    configure isError l d = configure isError l' d := by
  rw [configure_eq, configure_eq, h]

/-- A definition is applied exactly when its appenders are of the two types. -/
theorem configure_isSome (l : Logger) (d : LogDefine) :
    (configure isError l d).isSome ↔ Typed d := by
  have hmapM : ∀ (g : LogAppenderDefine → Option LogAppender) (as : List LogAppenderDefine),
      (as.mapM g).isSome ↔ ∀ a ∈ as, (g a).isSome := by
    intro g as
    induction as with
    | nil => simp
    | cons a as ih =>
        rw [List.mapM_cons, List.forall_mem_cons, ← ih]
        cases g a with
        | none => simp
        | some b =>
            cases as.mapM g with
            | none => simp
            | some bs => simp
  rw [configure_eq, Option.isSome_map, hmapM]
  exact forall₂_congr fun a _ => addedAppender_isSome isError _ a

/-! ## The two loops -/

variable {isError} {old new : LogDefines} {m m' : LoggerMap}

/-- What a turn of the first loop does: the definition is not in the old set, and its
logger is configured. -/
theorem applyDefine_eq_some {d : LogDefine} :
    applyDefine isError old m d = some m' ↔
      d ∉ old.val ∧ ∃ l, configure isError (getLogger m d.name) d = some l ∧
        m' = Function.update m d.name (some l) := by
  have hfound : d ∈ old.val ↔ old.find d.name = some d := by
    rw [LogDefines.find_eq_some]
    exact (and_iff_left rfl).symm
  have hturn : d ∉ old.val →
      (applyDefine isError old m d = (configure isError (getLogger m d.name) d).map fun l =>
        Function.update m d.name (some l)) := by
    intro hnot
    rw [hfound] at hnot
    rw [applyDefine]
    cases hfind : old.find d.name with
    | none => rfl
    | some e =>
        have hne : d ≠ e := fun heq => hnot (heq ▸ hfind)
        simp only [if_neg hne, Option.bind_some]
  by_cases hmem : d ∈ old.val
  · refine iff_of_false ?_ fun h => h.1 hmem
    rw [applyDefine, hfound.mp hmem]
    simp
  · rw [hturn hmem, Option.map_eq_some_iff, and_iff_right hmem]
    constructor
    · rintro ⟨l, hl, rfl⟩
      exact ⟨l, hl, rfl⟩
    · rintro ⟨l, hl, rfl⟩
      exact ⟨l, hl, rfl⟩

/-- The first loop configures the loggers of its definitions, each as it found it, and no
others. -/
theorem foldlM_applyDefine {ds : List LogDefine} (hnodup : (ds.map LogDefine.name).Nodup)
    (h : ds.foldlM (applyDefine isError old) m = some m') :
    (∀ d ∈ ds, d ∉ old.val ∧
      ∃ l, configure isError (getLogger m d.name) d = some l ∧ m' d.name = some l) ∧
    ∀ name, name ∉ ds.map LogDefine.name → m' name = m name := by
  induction ds generalizing m with
  | nil =>
      obtain rfl : m = m' := by simpa using h
      exact ⟨nofun, fun _ _ => rfl⟩
  | cons d ds ih =>
      rw [List.foldlM_cons] at h
      obtain ⟨m₁, hturn, hrest⟩ := Option.bind_eq_some_iff.mp h
      obtain ⟨hnot, l, hl, rfl⟩ := applyDefine_eq_some.mp hturn
      rw [List.map_cons, List.nodup_cons] at hnodup
      obtain ⟨hloggers, hothers⟩ := ih hnodup.2 hrest
      constructor
      · intro e he
        rcases List.mem_cons.mp he with rfl | he
        · refine ⟨hnot, l, hl, ?_⟩
          rw [hothers _ hnodup.1, Function.update_self]
        · have hne : e.name ≠ d.name := by
            intro heq
            exact hnodup.1 (heq ▸ List.mem_map_of_mem he)
          have hsame : getLogger (Function.update m d.name (some l)) e.name =
              getLogger m e.name := by
            rw [getLogger, getLogger, Function.update_of_ne hne]
          obtain ⟨hnew, l', hl', hm'⟩ := hloggers e he
          rw [hsame] at hl'
          exact ⟨hnew, l', hl', hm'⟩
      · intro name hname
        rw [List.map_cons, List.mem_cons, not_or] at hname
        rw [hothers name hname.2, Function.update_of_ne hname.1]

variable (isError) in
/-- The first loop comes to its end when no definition is in the old set and all
appenders can be made. -/
theorem exists_foldlM_applyDefine {ds : List LogDefine}
    (hds : ∀ d ∈ ds, d ∉ old.val ∧ Typed d) (m : LoggerMap) :
    ∃ m', ds.foldlM (applyDefine isError old) m = some m' := by
  induction ds generalizing m with
  | nil => exact ⟨m, rfl⟩
  | cons d ds ih =>
      obtain ⟨hnot, htyped⟩ := hds d List.mem_cons_self
      obtain ⟨l, hl⟩ := Option.isSome_iff_exists.mp
        ((configure_isSome isError (getLogger m d.name) d).mpr htyped)
      have hturn := applyDefine_eq_some.mpr ⟨hnot, l, hl, rfl⟩
      rw [List.foldlM_cons, hturn]
      exact ih (fun e he => hds e (List.mem_cons_of_mem d he)) _

/-- The second loop leaves every logger with a new definition alone. -/
theorem foldl_dropDefine_of_mem (ds : List LogDefine) (m : LoggerMap) {name : Str}
    (h : name ∈ new.val.map LogDefine.name) : ds.foldl (dropDefine new) m name = m name := by
  induction ds generalizing m with
  | nil => rfl
  | cons d ds ih =>
      rw [List.foldl_cons, ih, dropDefine]
      cases hfind : new.find d.name with
      | some e => rfl
      | none =>
          have hne : name ≠ d.name := by
            rintro rfl
            exact LogDefines.find_eq_none.mp hfind h
          exact Function.update_of_ne hne _ _

/-- A logger that prints nothing. -/
def Logger.Disabled (l : Logger) : Prop :=
  l.appenders = [] ∧ LogLevel.FATAL.toInt < l.level.toInt

/-- A logger of an unknown level without appenders prints nothing. -/
theorem disabled_of_drop (l : Logger) : ((l.setLevel (.other 100)).clearAppenders).Disabled := by
  refine ⟨rfl, ?_⟩
  change (5 : Int) < 100
  decide

/-- The second loop disables the loggers of its definitions that are not in the new set. -/
theorem foldl_dropDefine_of_not_mem (ds : List LogDefine) (m : LoggerMap) {name : Str}
    (h : name ∉ new.val.map LogDefine.name)
    (hname : name ∈ ds.map LogDefine.name ∨ ∃ l, m name = some l ∧ l.Disabled) :
    ∃ l, ds.foldl (dropDefine new) m name = some l ∧ l.Disabled := by
  induction ds generalizing m with
  | nil => exact hname.resolve_left List.not_mem_nil
  | cons d ds ih =>
      rw [List.foldl_cons]
      apply ih
      by_cases heq : name = d.name
      · subst heq
        rw [← LogDefines.find_eq_none] at h
        rw [dropDefine, h]
        exact Or.inr ⟨_, Function.update_self _ _ _, disabled_of_drop _⟩
      · rcases hname with hname | hname
        · rw [List.map_cons, List.mem_cons] at hname
          exact Or.inl (hname.resolve_left heq)
        · refine Or.inr ?_
          rw [dropDefine]
          cases new.find d.name with
          | some e => exact hname
          | none =>
              simp only [Function.update_of_ne heq]
              exact hname

/-! ## What applying a configuration means -/

variable (isError old new m)

/-- Every logger of the set is as its definition makes a new logger. -/
def Reflects (ds : LogDefines) (m : LoggerMap) : Prop :=
  ∀ d ∈ ds.val, ∃ l, m d.name = some l ∧ configure isError Logger.new d = some l

/-- What the listener has to make of the loggers. -/
structure Applied (m' : LoggerMap) : Prop where
  unchanged : ∀ d ∈ new.val, d ∈ old.val → m' d.name = m d.name
  fresh : ∀ d ∈ new.val, d ∉ old.val →
    ∃ l, m' d.name = some l ∧ configure isError Logger.new d = some l
  dropped : ∀ d ∈ old.val, d.name ∉ new.val.map LogDefine.name →
    ∃ l, m' d.name = some l ∧ l.Disabled

/-- The listener comes to its end and has applied the new definitions. -/
def Applies : Prop :=
  ∃ m', listener isError old new m = some m' ∧ Applied isError old new m m'

/-- No definition stays as it is, the type of every appender is known, and where a
definition gives a logger no formatter, the logger has that of a new one. -/
structure Renewed : Prop where
  changed : ∀ d ∈ new.val, d ∉ old.val
  typed : ∀ d ∈ new.val, Typed d
  formatter : ∀ d ∈ new.val, d.formatter = [] ∨ isError d.formatter = true →
    (getLogger m d.name).formatter = defaultPattern

/-- A definition takes effect exactly when the logger is new or renewed. -/
theorem applies_iff_renewed : Applies isError old new m ↔ Renewed isError old new m := by
  have hmem : ∀ d ∈ new.val, d.name ∈ new.val.map LogDefine.name :=
    fun d hd => List.mem_map_of_mem hd
  constructor
  · rintro ⟨m', hm', happlied⟩
    obtain ⟨m₁, hloop, rfl⟩ := Option.map_eq_some_iff.mp hm'
    obtain ⟨hloggers, -⟩ := foldlM_applyDefine new.nodup hloop
    refine ⟨fun d hd => (hloggers d hd).1, fun d hd => ?_, fun d hd hnone => ?_⟩
    · obtain ⟨-, l, hl, -⟩ := hloggers d hd
      rw [← configure_isSome isError (getLogger m d.name), hl]
      rfl
    · obtain ⟨hnot, l, hl, hlogger⟩ := hloggers d hd
      obtain ⟨l', hl', hfresh⟩ := happlied.fresh d hd hnot
      rw [foldl_dropDefine_of_mem _ _ (hmem d hd), hlogger, Option.some.injEq] at hl'
      subst hl'
      have hformatter := (configure_formatter isError hl).symm.trans
        (configure_formatter isError hfresh)
      rwa [formatterAfter, formatterAfter, if_pos hnone, if_pos hnone] at hformatter
  · intro h
    obtain ⟨m₁, hloop⟩ := exists_foldlM_applyDefine isError
      (fun d hd => ⟨h.changed d hd, h.typed d hd⟩) m
    obtain ⟨hloggers, -⟩ := foldlM_applyDefine new.nodup hloop
    refine ⟨_, congrArg _ hloop, fun d hd hold => absurd hold (h.changed d hd),
      fun d hd _ => ?_, fun d hd hgone => ?_⟩
    · obtain ⟨-, l, hl, hlogger⟩ := hloggers d hd
      refine ⟨l, (foldl_dropDefine_of_mem _ _ (hmem d hd)).trans hlogger, ?_⟩
      rw [← hl]
      apply configure_congr
      rw [formatterAfter, formatterAfter]
      split
      · rename_i hnone
        exact (h.formatter d hd hnone).symm
      · rfl
    · exact foldl_dropDefine_of_not_mem _ _ hgone (Or.inl (List.mem_map_of_mem hd))

/-- A value of `g_log_defines` and the loggers. -/
abbrev Configured : Type := LogDefines × LoggerMap

/-- `g_log_defines` gets a new value. -/
def reload (s : Configured) (new : LogDefines) : Option Configured :=
  (listener isError s.1 new s.2).map fun m => (new, m)

/-- What is applied to loggers that reflect the old definitions makes them reflect the
new ones. -/
theorem Applied.reflects {isError : Str → Bool} {old new : LogDefines} {m m' : LoggerMap}
    (h : Applied isError old new m m') (hold : Reflects isError old m) :
    Reflects isError new m' := by
  intro d hd
  by_cases hmem : d ∈ old.val
  · rw [h.unchanged d hd hmem]
    exact hold d hmem
  · exact h.fresh d hd hmem

/-- **Reloads.**  One reload applies the new definitions exactly when they are renewed.
After reloads that all are, every configured logger is what the last set of definitions
makes of a new one. -/
theorem reloads_reflect :
    (∀ (old new : LogDefines) (m : LoggerMap),
      Applies isError old new m ↔ Renewed isError old new m) ∧
    ∀ (s : Configured) (news : List LogDefines), Reflects isError s.1 s.2 →
      Along (fun s new s' => reload isError s new = some s')
        (fun s new => Renewed isError s.1 new s.2) s news →
      ∃ m', news.foldlM (reload isError) s = some (news.getLastD s.1, m') ∧
        Reflects isError (news.getLastD s.1) m' := by
  refine ⟨fun old new m => applies_iff_renewed isError old new m, fun s news => ?_⟩
  induction news generalizing s with
  | nil => exact fun hreflects _ => ⟨s.2, rfl, hreflects⟩
  | cons new news ih =>
      rintro hreflects ⟨hrenewed, hrest⟩
      obtain ⟨m', hm', happlied⟩ := (applies_iff_renewed isError s.1 new s.2).mpr hrenewed
      have hreload : reload isError s new = some (new, m') := by rw [reload, hm', Option.map_some]
      obtain ⟨m'', hrun, hlast⟩ := ih (new, m') (happlied.reflects hreflects)
        (hrest _ hreload)
      refine ⟨m'', ?_, ?_⟩
      · rw [List.foldlM_cons, hreload, List.getLastD_cons]
        exact hrun
      · rw [List.getLastD_cons]
        exact hlast

end Listener

/-! ## Two reloads -/

/-- A logger that prints to the standard output. -/
def printing (name : String) : LogDefine where
  name := ascii name
  level := .INFO
  formatter := []
  appenders := [⟨2, .UNKONWN, [], []⟩]

def onlySystem : LogDefines :=
  ⟨[printing "system"], List.pairwise_singleton _ _⟩

def onlyTest : LogDefines :=
  ⟨[printing "test"], List.pairwise_singleton _ _⟩

def systemAndTest : LogDefines :=
  ⟨[printing "system", printing "test"], by unfold SortedSet.Sorted; decide⟩

/-- Every pattern parses. -/
def noError : Str → Bool :=
  fun _ => false

/-- The definition has an appender of the second type. -/
theorem typed_printing (name : String) : Typed (printing name) := by
  intro a ha
  obtain rfl := List.mem_singleton.mp ha
  exact Or.inr rfl

/-- One logger is dropped and another one defined. -/
theorem reloads_reflect_in_turn :
    ∃ m', [onlySystem, onlyTest].foldlM (reload noError) (LogDefines.empty, fun _ => none) =
      some (onlyTest, m') ∧ Reflects noError onlyTest m' := by
  apply (reloads_reflect noError).2 (LogDefines.empty, fun _ => none) [onlySystem, onlyTest] nofun
  refine ⟨⟨fun _ _ => nofun, ?_, fun _ _ _ => rfl⟩, fun s hs => ⟨⟨?_, ?_, ?_⟩, fun _ _ => trivial⟩⟩
  · intro d hd
    obtain rfl := List.mem_singleton.mp hd
    exact typed_printing _
  · intro d hd
    obtain rfl := List.mem_singleton.mp hd
    obtain ⟨m', -, rfl⟩ := Option.map_eq_some_iff.mp hs
    have hnot : printing "test" ∉ onlySystem.val := by decide
    exact hnot
  · intro d hd
    obtain rfl := List.mem_singleton.mp hd
    exact typed_printing _
  · intro d hd _
    obtain rfl := List.mem_singleton.mp hd
    have hview : (reload noError (LogDefines.empty, fun _ => none) onlySystem).map
        (fun s => s.2 (ascii "test")) = some none := by decide
    rw [hs, Option.map_some, Option.some.injEq] at hview
    change (getLogger s.2 (ascii "test")).formatter = defaultPattern
    rw [getLogger, hview]
    rfl

/-- A definition that is added beside one that stays as it is: the listener sets the
level of a null logger. -/
theorem unchanged_define_is_null :
    ¬ ∀ (isError : Str → Bool) (old new : LogDefines) (m : LoggerMap),
      Reflects isError old m → Applies isError old new m := by
  intro hall
  let m : LoggerMap := Function.update (fun _ => none) (ascii "system")
    (configure noError Logger.new (printing "system"))
  have hreflects : Reflects noError onlySystem m := by
    intro d hd
    obtain rfl := List.mem_singleton.mp hd
    obtain ⟨l, hl⟩ := Option.isSome_iff_exists.mp
      ((configure_isSome noError Logger.new (printing "system")).mpr (typed_printing _))
    exact ⟨l, (Function.update_self _ _ _).trans hl, hl⟩
  obtain ⟨m', hm', -⟩ := hall noError onlySystem systemAndTest m hreflects
  have hnull : (listener noError onlySystem systemAndTest m).isSome = false := by decide
  rw [hm'] at hnull
  cases hnull

end Log

end Agent
