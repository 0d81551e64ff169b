import GServer.Library.Runs
import Mathlib.Logic.Function.Basic

/-!
# Inheritance of formatters

An appender without a formatter of its own takes that of its logger: when it is attached,
and when the logger gets another one.  Loggers and appenders are shared pointers, so one
appender can be attached to several loggers and carries its formatter from one to the
next.

`addAppender` looks at the pointer and not at `m_hasFormatter`, and
`setFormatter(nullptr)` leaves an attached appender with none.
`FormatterInheritance.inherits_iff` says at which calls this is visible.
-/

namespace Agent

open Runs

namespace FormatterInheritance

/-- `LogAppender`, with the formatter last given to it. -/
structure LogAppender (F : Type) where
  m_formatter : Option F
  m_hasFormatter : Bool
  given : Option F

/-- `Logger`; its formatter is never null. -/
structure Logger (A F : Type) where
  m_formatter : F
  m_appenders : List A

structure State (L A F : Type) where
  loggers : L → Logger A F
  appenders : A → LogAppender F

/-- The calls; `LogAppender::setFormatter` may be given null. -/
inductive Call (L A F : Type)
  | addAppender (l : L) (a : A)
  | delAppender (l : L) (a : A)
  | clearAppenders (l : L)
  | setFormatter (l : L) (val : F)
  | setAppenderFormatter (a : A) (formatter : Option F)

variable {L A F : Type}

/-- New loggers and appenders. -/
def start (formatters : L → F) : State L A F where
  loggers := fun l => ⟨formatters l, []⟩
  appenders := fun _ => ⟨none, false, none⟩

section Calls

variable [DecidableEq L] [DecidableEq A]

/-- The appender `a` with another formatter pointer. -/
def State.putFormatter (s : State L A F) (a : A) (formatter : Option F) : State L A F :=
  { s with appenders :=
      Function.update s.appenders a { s.appenders a with m_formatter := formatter } }

/-- The logger `l` with other appenders. -/
def State.putAppenders (s : State L A F) (l : L) (m_appenders : List A) : State L A F :=
  { s with loggers := Function.update s.loggers l { s.loggers l with m_appenders := m_appenders } }

/-- `Logger::addAppender`. -/
def addAppender (s : State L A F) (l : L) (a : A) : State L A F :=
  let s := if (s.appenders a).m_formatter.isNone then
      s.putFormatter a (some (s.loggers l).m_formatter)
    else s
  s.putAppenders l ((s.loggers l).m_appenders ++ [a])

/-- `Logger::delAppender` erases the first occurrence. -/
def delAppender (s : State L A F) (l : L) (a : A) : State L A F :=
  s.putAppenders l ((s.loggers l).m_appenders.erase a)

/-- `Logger::clearAppenders`. -/
def clearAppenders (s : State L A F) (l : L) : State L A F :=
  s.putAppenders l []

/-- `Logger::setFormatter`: the appenders without a formatter of their own follow. -/
def setFormatter (s : State L A F) (l : L) (val : F) : State L A F where
  loggers := Function.update s.loggers l { s.loggers l with m_formatter := val }
  appenders := fun a =>
    if a ∈ (s.loggers l).m_appenders ∧ (s.appenders a).m_hasFormatter = false then
      { s.appenders a with m_formatter := some val }
    else s.appenders a

/-- `LogAppender::setFormatter`. -/
def setAppenderFormatter (s : State L A F) (a : A) (formatter : Option F) : State L A F :=
  { s with appenders := Function.update s.appenders a ⟨formatter, formatter.isSome, formatter⟩ }

def exec (s : State L A F) : Call L A F → State L A F
  | .addAppender l a => addAppender s l a
  | .delAppender l a => delAppender s l a
  | .clearAppenders l => clearAppenders s l
  | .setFormatter l val => setFormatter s l val
  | .setAppenderFormatter a formatter => setAppenderFormatter s a formatter

/-- The steps of a run. -/
def Step (s : State L A F) (call : Call L A F) (s' : State L A F) : Prop :=
  exec s call = s'

end Calls

/-! ## The property -/

def Attached (s : State L A F) (l : L) (a : A) : Prop :=
  a ∈ (s.loggers l).m_appenders

instance [DecidableEq A] (s : State L A F) (l : L) (a : A) : Decidable (Attached s l a) :=
  inferInstanceAs (Decidable (a ∈ (s.loggers l).m_appenders))

/-- The appender is attached to this logger alone. -/
def OnlyAt (s : State L A F) (l : L) (a : A) : Prop :=
  Attached s l a ∧ ∀ l', Attached s l' a → l' = l

/-- An appender without a formatter of its own has the one of the logger. -/
def Follows (s : State L A F) (l : L) (a : A) : Prop :=
  (s.appenders a).m_hasFormatter = false →
    (s.appenders a).m_formatter = some (s.loggers l).m_formatter

/-- Every attached appender has a formatter: its own, or that of its logger. -/
structure Inherits (s : State L A F) : Prop where
  nonNull : ∀ l a, Attached s l a → (s.appenders a).m_formatter ≠ none
  own : ∀ l a, Attached s l a → (s.appenders a).m_hasFormatter = true →
    (s.appenders a).m_formatter = (s.appenders a).given
  follows : ∀ l a, OnlyAt s l a → Follows s l a

/-- Where the appender is attached to exactly one logger besides `l`, it follows that
one. -/
def FollowsWithout (s : State L A F) (l : L) (a : A) : Prop :=
  ∀ l', l' ≠ l → Attached s l' a → (∀ l'', l'' ≠ l → Attached s l'' a → l'' = l') → Follows s l' a

/-- What is asked of a call.  An appender without a formatter of its own comes to its
only logger with no formatter pointer or with the right one, and leaves a logger only
when it follows the one it stays at; null is given to detached appenders. -/
def Guard [DecidableEq A] (s : State L A F) : Call L A F → Prop
  | .addAppender l a => (s.appenders a).m_formatter = none ∨ Follows s l a ∨
      ∃ l', l' ≠ l ∧ Attached s l' a
  | .delAppender l a => (s.loggers l).m_appenders.count a = 1 → FollowsWithout s l a
  | .clearAppenders l => ∀ a, Attached s l a → FollowsWithout s l a
  | .setFormatter _ _ => True
  | .setAppenderFormatter a formatter => formatter = none → ∀ l, ¬ Attached s l a

/-- The invariant: inheritance, and own formatters are not null, attached or not. -/
structure Inv (s : State L A F) : Prop where
  inherits : Inherits s
  own : ∀ a, (s.appenders a).m_hasFormatter = true →
    (s.appenders a).m_formatter = (s.appenders a).given ∧ (s.appenders a).m_formatter ≠ none

/-- Nothing is attached at the start. -/
theorem inv_start (formatters : L → F) : Inv (start formatters : State L A F) where
  inherits := ⟨fun _ _ h => (by cases h), fun _ _ h => (by cases h), fun _ _ h => by cases h.1⟩
  own := fun _ h => by cases h

/-! ## Attaching and detaching -/

section Calls

variable [DecidableEq L] [DecidableEq A]

omit [DecidableEq A] in
/-- Attaching changes no formatter of a logger. -/
theorem loggers_putAppenders (s : State L A F) (l : L) (as : List A) (l' : L) :
    ((s.putAppenders l as).loggers l').m_formatter = (s.loggers l').m_formatter := by
  by_cases heq : l' = l
  · subst heq
    simp [State.putAppenders]
  · simp [State.putAppenders, Function.update_of_ne heq]

omit [DecidableEq A] in
/-- The logger has these appenders. -/
theorem attached_putAppenders_self (s : State L A F) (l : L) (as : List A) (a : A) :
    Attached (s.putAppenders l as) l a ↔ a ∈ as := by
  simp [Attached, State.putAppenders]

omit [DecidableEq A] in
/-- Another logger has what it had. -/
theorem attached_putAppenders_of_ne (s : State L A F) {l l' : L} (h : l' ≠ l) (as : List A)
    (a : A) : Attached (s.putAppenders l as) l' a ↔ Attached s l' a := by
  simp [Attached, State.putAppenders, Function.update_of_ne h]

omit [DecidableEq A] in
/-- What an appender follows is not changed by attaching. -/
theorem follows_putAppenders (s : State L A F) (l : L) (as : List A) (l' : L) (a : A) :
    Follows (s.putAppenders l as) l' a ↔ Follows s l' a := by
  unfold Follows
  rw [loggers_putAppenders]
  rfl

omit [DecidableEq A] in
/-- A logger that keeps a part of its appenders: inheritance depends on those that it
gives up. -/
theorem inherits_putAppenders_iff {s : State L A F} (h : Inherits s) {l : L} {as : List A}
    (hsub : ∀ a ∈ as, Attached s l a) :
    Inherits (s.putAppenders l as) ↔ ∀ a, Attached s l a → a ∉ as → FollowsWithout s l a := by
  have hattached : ∀ l' a, Attached (s.putAppenders l as) l' a → Attached s l' a := by
    intro l' a ha
    by_cases heq : l' = l
    · subst heq
      exact hsub a ((attached_putAppenders_self s l' as a).mp ha)
    · exact (attached_putAppenders_of_ne s heq as a).mp ha
  constructor
  · intro hafter a _ hgone l' hne hl' honly
    refine (follows_putAppenders s l as l' a).mp (hafter.follows l' a
      ⟨(attached_putAppenders_of_ne s hne as a).mpr hl', fun l'' hl'' => ?_⟩)
    have hne'' : l'' ≠ l := by
      intro heq
      rw [heq, attached_putAppenders_self] at hl''
      exact hgone hl''
    exact honly l'' hne'' (hattached l'' a hl'')
  · intro hleft
    refine ⟨fun l' a ha => h.nonNull l' a (hattached l' a ha),
      fun l' a ha => h.own l' a (hattached l' a ha), fun l' a ha => ?_⟩
    rw [follows_putAppenders]
    by_cases hgone : Attached s l a ∧ a ∉ as
    · have hne : l' ≠ l := by
        intro heq
        have hstill := ha.1
        rw [heq, attached_putAppenders_self] at hstill
        exact hgone.2 hstill
      refine hleft a hgone.1 hgone.2 l' hne (hattached l' a ha.1) fun l'' hne'' hl'' => ?_
      exact ha.2 l'' ((attached_putAppenders_of_ne s hne'' as a).mpr hl'')
    · -- the appender is attached to the same loggers as before
      refine h.follows l' a ⟨hattached l' a ha.1, fun l'' hl'' => ?_⟩
      by_cases heq : l'' = l
      · subst heq
        have hkept : a ∈ as := by
          by_contra hnot
          exact hgone ⟨hl'', hnot⟩
        exact ha.2 l'' ((attached_putAppenders_self s l'' as a).mpr hkept)
      · exact ha.2 l'' ((attached_putAppenders_of_ne s heq as a).mpr hl'')

/-- Deleting keeps inheritance exactly under the guard. -/
theorem inherits_delAppender_iff {s : State L A F} (h : Inherits s) (l : L) (a : A) :
    Inherits (delAppender s l a) ↔ Guard s (.delAppender l a) := by
  have hgone : ∀ b, (Attached s l b ∧ b ∉ (s.loggers l).m_appenders.erase a) ↔
      b = a ∧ (s.loggers l).m_appenders.count a = 1 := by
    intro b
    constructor
    · rintro ⟨hb, hnot⟩
      have heq : b = a := by
        by_contra hne
        exact hnot ((List.mem_erase_of_ne hne).mpr hb)
      subst heq
      have hcount : (s.loggers l).m_appenders.count b - 1 = 0 := by
        rw [← List.count_erase_self]
        exact List.count_eq_zero_of_not_mem hnot
      have hpos : 0 < (s.loggers l).m_appenders.count b := List.count_pos_iff.mpr hb
      exact ⟨rfl, by omega⟩
    · rintro ⟨rfl, hone⟩
      refine ⟨List.count_pos_iff.mp (by omega), ?_⟩
      rw [← List.count_eq_zero, List.count_erase_self]
      omega
  rw [delAppender, inherits_putAppenders_iff h fun b hb => List.mem_of_mem_erase hb]
  constructor
  · intro hall hone
    obtain ⟨ha, hnot⟩ := (hgone a).mpr ⟨rfl, hone⟩
    exact hall a ha hnot
  · intro hguard b hb hnot
    obtain ⟨rfl, hone⟩ := (hgone b).mp ⟨hb, hnot⟩
    exact hguard hone

omit [DecidableEq A] in
/-- Clearing keeps it exactly when every appender follows without the logger. -/
theorem inherits_clearAppenders_iff {s : State L A F} (h : Inherits s) (l : L) :
    Inherits (clearAppenders s l) ↔ ∀ a, Attached s l a → FollowsWithout s l a := by
  rw [clearAppenders, inherits_putAppenders_iff h fun a ha => by cases ha]
  exact forall₂_congr fun a _ => ⟨fun hleft => hleft List.not_mem_nil, fun hleft _ => hleft⟩

/-! ## The formatter pointers -/

/-- Setting the formatter of a logger keeps it. -/
theorem inherits_setFormatter {s : State L A F} (h : Inherits s) (l : L) (val : F) :
    Inherits (setFormatter s l val) := by
  have happenders : ∀ l', ((setFormatter s l val).loggers l').m_appenders =
      (s.loggers l').m_appenders := by
    intro l'
    by_cases heq : l' = l
    · subst heq
      simp [setFormatter]
    · simp [setFormatter, Function.update_of_ne heq]
  have hattached : ∀ l' a, Attached (setFormatter s l val) l' a ↔ Attached s l' a := by
    intro l' a
    rw [Attached, happenders]
    rfl
  refine ⟨fun l' a ha => ?_, fun l' a ha hown => ?_, fun l' a ha hnone => ?_⟩
  · have hbefore := h.nonNull l' a ((hattached l' a).mp ha)
    simp only [setFormatter]
    split
    · simp
    · exact hbefore
  · have hbefore := h.own l' a ((hattached l' a).mp ha)
    simp only [setFormatter] at hown ⊢
    split at hown
    · rename_i hfollows
      rw [hfollows.2] at hown
      cases hown
    · rename_i hkeeps
      rw [if_neg hkeeps]
      exact hbefore hown
  · have honly : OnlyAt s l' a :=
      ⟨(hattached l' a).mp ha.1, fun l'' hl'' => ha.2 l'' ((hattached l'' a).mpr hl'')⟩
    have hflag : (s.appenders a).m_hasFormatter = false := by
      simp only [setFormatter] at hnone
      split at hnone
      · exact hnone
      · exact hnone
    by_cases hmem : a ∈ (s.loggers l).m_appenders
    · have heq : l = l' := honly.2 l hmem
      subst heq
      simp [setFormatter, hmem, hflag]
    · have hne : l' ≠ l := by
        rintro rfl
        exact hmem honly.1
      have hbefore := h.follows l' a honly hflag
      simp [setFormatter, hmem, Function.update_of_ne hne, hbefore]

omit [DecidableEq L] in
/-- Setting that of an appender keeps it exactly under the guard. -/
theorem inherits_setAppenderFormatter_iff {s : State L A F} (h : Inherits s) (a : A)
    (formatter : Option F) : Inherits (setAppenderFormatter s a formatter) ↔
      Guard s (.setAppenderFormatter a formatter) := by
  have hself : (setAppenderFormatter s a formatter).appenders a =
      ⟨formatter, formatter.isSome, formatter⟩ := Function.update_self ..
  have hother : ∀ b, b ≠ a → (setAppenderFormatter s a formatter).appenders b = s.appenders b :=
    fun b hb => Function.update_of_ne hb ..
  constructor
  · intro hafter hnone l hl
    have hnull := hafter.nonNull l a hl
    rw [hself] at hnull
    exact hnull hnone
  · intro hguard
    have hgiven : ∀ l, Attached s l a → formatter.isSome = true := by
      intro l hl
      cases formatter with
      | none => exact absurd hl (hguard rfl l)
      | some f => rfl
    refine ⟨fun l b hb => ?_, fun l b hb hown => ?_, fun l b hb hnone => ?_⟩
    · by_cases heq : b = a
      · subst heq
        rw [hself]
        exact Option.isSome_iff_ne_none.mp (hgiven l hb)
      · rw [hother b heq]
        exact h.nonNull l b hb
    · by_cases heq : b = a
      · subst heq
        rw [hself]
      · rw [hother b heq] at hown ⊢
        exact h.own l b hb hown
    · by_cases heq : b = a
      · subst heq
        have hisSome := hgiven l hb.1
        have hflag : formatter.isSome = false := by rwa [hself] at hnone
        rw [hisSome] at hflag
        cases hflag
      · rw [hother b heq] at hnone ⊢
        exact h.follows l b hb hnone

/-- The appender that is attached: it takes the formatter of the logger when its pointer
is null. -/
theorem appender_addAppender (s : State L A F) (l : L) (a : A) :
    (addAppender s l a).appenders a = { s.appenders a with
      m_formatter := (s.appenders a).m_formatter.or (some (s.loggers l).m_formatter) } := by
  unfold addAppender
  cases hpointer : (s.appenders a).m_formatter with
  | none => simp [State.putAppenders, State.putFormatter]
  | some f =>
      simp only [Option.isNone_some, Bool.false_eq_true, if_false, Option.some_or]
      rw [← hpointer]
      rfl

/-- Attaching an appender leaves the others alone. -/
theorem appender_addAppender_of_ne (s : State L A F) (l : L) {a b : A} (h : b ≠ a) :
    (addAppender s l a).appenders b = s.appenders b := by
  unfold addAppender
  split
  · exact Function.update_of_ne h ..
  · rfl

/-- The appender is put at the end. -/
theorem loggers_addAppender (s : State L A F) (l : L) (a : A) :
    (addAppender s l a).loggers =
      (s.putAppenders l ((s.loggers l).m_appenders ++ [a])).loggers := by
  unfold addAppender
  split
  · rfl
  · rfl

/-- One more is attached. -/
theorem attached_addAppender (s : State L A F) (l l' : L) (a b : A) :
    Attached (addAppender s l a) l' b ↔ Attached s l' b ∨ l' = l ∧ b = a := by
  rw [Attached, loggers_addAppender]
  by_cases heq : l' = l
  · subst heq
    have hself := attached_putAppenders_self s l' ((s.loggers l').m_appenders ++ [a]) b
    refine hself.trans ?_
    simp [Attached]
  · refine (attached_putAppenders_of_ne s heq _ b).trans ?_
    simp [heq]

/-- No formatter of a logger changes. -/
theorem logger_addAppender (s : State L A F) (l l' : L) (a : A) :
    ((addAppender s l a).loggers l').m_formatter = (s.loggers l').m_formatter := by
  rw [loggers_addAppender]
  exact loggers_putAppenders s l _ l'

/-- Attaching keeps inheritance exactly under the guard. -/
theorem inherits_addAppender_iff {s : State L A F} (h : Inv s) (l : L) (a : A) :
    Inherits (addAppender s l a) ↔ Guard s (.addAppender l a) := by
  have hattached := fun l' b => attached_addAppender s l l' a b
  constructor
  · intro hafter
    by_contra hguard
    simp only [Guard, not_or, not_exists, not_and] at hguard
    obtain ⟨hpointer, hfollows, halone⟩ := hguard
    refine hfollows fun hflag => ?_
    have honly : OnlyAt (addAppender s l a) l a := by
      refine ⟨(hattached l a).mpr (Or.inr ⟨rfl, rfl⟩), fun l' hl' => ?_⟩
      rcases (hattached l' a).mp hl' with hbefore | ⟨heq, -⟩
      · by_contra hne
        exact halone l' hne hbefore
      · exact heq
    obtain ⟨f, hf⟩ := Option.ne_none_iff_exists'.mp hpointer
    have hthen := hafter.follows l a honly
    rw [Follows, appender_addAppender, logger_addAppender, hf] at hthen
    rw [hf]
    exact hthen hflag
  · intro hguard
    refine ⟨fun l' b hb => ?_, fun l' b hb hown => ?_, fun l' b hb hnone => ?_⟩
    · by_cases heq : b = a
      · subst heq
        rw [appender_addAppender]
        cases (s.appenders b).m_formatter <;> simp
      · rw [appender_addAppender_of_ne s l heq]
        rcases (hattached l' b).mp hb with hbefore | ⟨-, hba⟩
        · exact h.inherits.nonNull l' b hbefore
        · exact absurd hba heq
    · by_cases heq : b = a
      · subst heq
        rw [appender_addAppender] at hown ⊢
        obtain ⟨hgiven, hpointer⟩ := h.own b hown
        obtain ⟨f, hf⟩ := Option.ne_none_iff_exists'.mp hpointer
        rw [hf] at hgiven
        simpa [hf] using hgiven
      · rw [appender_addAppender_of_ne s l heq] at hown ⊢
        exact (h.own b hown).1
    · rw [logger_addAppender]
      by_cases heq : b = a
      · subst heq
        have hl' : l' = l := (hb.2 l ((hattached l b).mpr (Or.inr ⟨rfl, rfl⟩))).symm
        subst hl'
        rw [appender_addAppender] at hnone ⊢
        rcases hguard with hpointer | hfollows | ⟨l'', hne, hl''⟩
        · simp [hpointer]
        · simp [hfollows hnone]
        · exact absurd (hb.2 l'' ((hattached l'' b).mpr (Or.inl hl''))) hne
      · have hbefore : ∀ l'', Attached (addAppender s l a) l'' b ↔ Attached s l'' b := by
          intro l''
          rw [hattached]
          simp [heq]
        rw [appender_addAppender_of_ne s l heq] at hnone ⊢
        exact h.inherits.follows l' b
          ⟨(hbefore l').mp hb.1, fun l'' hl'' => hb.2 l'' ((hbefore l'').mpr hl'')⟩ hnone

/-! ## Runs -/

/-- Whether a call keeps up the inheritance. -/
theorem inherits_exec_iff {s : State L A F} (h : Inv s) (call : Call L A F) :
    Inherits (exec s call) ↔ Guard s call := by
  cases call with
  | addAppender l a => exact inherits_addAppender_iff h l a
  | delAppender l a => exact inherits_delAppender_iff h.inherits l a
  | clearAppenders l => exact inherits_clearAppenders_iff h.inherits l
  | setFormatter l val => exact iff_of_true (inherits_setFormatter h.inherits l val) trivial
  | setAppenderFormatter a formatter =>
      exact inherits_setAppenderFormatter_iff h.inherits a formatter

/-- No call touches a formatter of an appender's own but the one that gives it. -/
theorem own_exec {s : State L A F} (h : Inv s) (call : Call L A F) (a : A)
    (hown : ((exec s call).appenders a).m_hasFormatter = true) :
    ((exec s call).appenders a).m_formatter = ((exec s call).appenders a).given ∧
      ((exec s call).appenders a).m_formatter ≠ none := by
  cases call with
  | addAppender l b =>
      simp only [exec] at hown ⊢
      by_cases heq : a = b
      · subst heq
        rw [appender_addAppender] at hown ⊢
        obtain ⟨hgiven, hpointer⟩ := h.own a hown
        obtain ⟨f, hf⟩ := Option.ne_none_iff_exists'.mp hpointer
        rw [hf] at hgiven
        simpa [hf] using hgiven
      · rw [appender_addAppender_of_ne s l heq] at hown ⊢
        exact h.own a hown
  | delAppender l b => exact h.own a hown
  | clearAppenders l => exact h.own a hown
  | setFormatter l val =>
      simp only [exec, setFormatter] at hown ⊢
      split at hown
      · rename_i hfollows
        rw [hfollows.2] at hown
        cases hown
      · rename_i hkeeps
        rw [if_neg hkeeps]
        exact h.own a hown
  | setAppenderFormatter b formatter =>
      simp only [exec, setAppenderFormatter] at hown ⊢
      by_cases heq : a = b
      · subst heq
        rw [Function.update_self] at hown ⊢
        exact ⟨rfl, Option.isSome_iff_ne_none.mp hown⟩
      · rw [Function.update_of_ne heq] at hown ⊢
        exact h.own a hown

/-- The call leads to a state with inheritance. -/
def Agrees (s : State L A F) (call : Call L A F) : Prop :=
  ∀ s', Step s call s' → Inherits s'

/-- **Inheritance along a run.**  For any loggers and appenders and every sequence of
calls, every attached appender has its own formatter or that of its logger, in every
state, exactly when each call meets its guard. -/
theorem inherits_iff (formatters : L → F) (calls : List (Call L A F)) :
    Along Step Agrees (start formatters) calls ↔ Along Step Guard (start formatters) calls := by
  refine along_iff_of_invariant (I := Inv) (V := fun _ => True) (fun s call h _ => ?_)
    (fun s call s' h _ hguard hstep => ?_) calls (start formatters) (inv_start formatters)
    fun _ _ => trivial
  · constructor
    · exact fun hagrees => (inherits_exec_iff h call).mp (hagrees (exec s call) rfl)
    · rintro hguard s' rfl
      exact (inherits_exec_iff h call).mpr hguard
  · rw [← hstep]
    exact ⟨(inherits_exec_iff h call).mpr hguard, fun a hown => own_exec h call a hown⟩

end Calls

/-- An appender that goes from one logger to another keeps the formatter of the first. -/
theorem moved_appender_keeps_formatter :
    ¬ ∀ (formatters : Bool → Nat) (calls : List (Call Bool Unit Nat)),
      Along Step Agrees (start formatters) calls := by
  intro hall
  let formatters : Bool → Nat := fun l => if l then 1 else 0
  have hrun := hall formatters [.addAppender true (), .delAppender true (), .addAppender false ()]
  have hlast := (((hrun.2 _ rfl).2 _ rfl).1 _ rfl).follows false ()
  have honly : OnlyAt (exec (exec (exec (start formatters) (.addAppender true ()))
      (.delAppender true ())) (.addAppender false ())) false () := by
    refine ⟨by decide, fun l hl => ?_⟩
    cases l with
    | false => rfl
    | true => cases hl
  have hformatter := hlast honly rfl
  revert hformatter
  decide

end FormatterInheritance

end Agent
