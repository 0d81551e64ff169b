import GServer.Http
import Mathlib.Data.List.Nodup
import Mathlib.Data.List.Induction

/-!
# Routing requests to servlets

`ServletDispatch` holds a map from paths to servlets and a vector of patterns with
servlets.  Adding a pattern that is there moves it to the end; both ways to take one out
stop at the first hit.  What a path is routed to is compared with the history of the
calls: the latest call decides about a path, and patterns stand in the order of their
latest additions.

`fnmatch` is a parameter, called with C strings.
-/

namespace Agent

namespace Http

/-- `ServletDispatch`, over the servlets. -/
structure ServletDispatch (S : Type) where
  datas : Str → Option S
  globs : List (Str × S)
  defaultServlet : S

namespace ServletDispatch

variable {S : Type}

/-- `ServletDispatch::ServletDispatch`. -/
def new (notFound : S) : ServletDispatch S where
  datas := fun _ => none
  globs := []
  defaultServlet := notFound

def addServlet (d : ServletDispatch S) (uri : Str) (slt : S) : ServletDispatch S :=
  { d with datas := fun key => if key = uri then some slt else d.datas key }

/-- The loop that erases the first entry with this pattern. -/
def eraseGlob (uri : Str) (globs : List (Str × S)) : List (Str × S) :=
  globs.eraseP fun e => e.1 == uri

def addGlobServlet (d : ServletDispatch S) (uri : Str) (slt : S) : ServletDispatch S :=
  { d with globs := eraseGlob uri d.globs ++ [(uri, slt)] }

def delServlet (d : ServletDispatch S) (uri : Str) : ServletDispatch S :=
  { d with datas := fun key => if key = uri then none else d.datas key }

def delGlobServlet (d : ServletDispatch S) (uri : Str) : ServletDispatch S :=
  { d with globs := eraseGlob uri d.globs }

def getServlet (d : ServletDispatch S) (uri : Str) : Option S :=
  d.datas uri

def getGlobServlet (d : ServletDispatch S) (uri : Str) : Option S :=
  (d.globs.find? fun e => e.1 == uri).map Prod.snd

/-- `ServletDispatch::getMatchedServlet`; `fnmatch` is true where the function returns
zero. -/
def getMatchedServlet (fnmatch : Str → Str → Bool) (d : ServletDispatch S) (uri : Str) : S :=
  match d.datas uri with
  | some slt => slt
  | none =>
      match d.globs.find? fun e => fnmatch (cStr e.1) (cStr uri) with
      | some e => e.2
      | none => d.defaultServlet

/-- The calls that change the routes. -/
inductive Call (S : Type)
  | addServlet (uri : Str) (slt : S)
  | addGlobServlet (uri : Str) (slt : S)
  | delServlet (uri : Str)
  | delGlobServlet (uri : Str)

/-- The dispatch after a call. -/
def after (d : ServletDispatch S) : Call S → ServletDispatch S
  | .addServlet uri slt => d.addServlet uri slt
  | .addGlobServlet uri slt => d.addGlobServlet uri slt
  | .delServlet uri => d.delServlet uri
  | .delGlobServlet uri => d.delGlobServlet uri

/-- A new dispatch after some calls. -/
def run (notFound : S) (calls : List (Call S)) : ServletDispatch S :=
  calls.foldl after (new notFound)

/-! ## The history -/

/-- What a call says about a path: a servlet, none, or nothing. -/
def Call.about (uri : Str) : Call S → Option (Option S)
  | .addServlet u slt => if u = uri then some (some slt) else none
  | .delServlet u => if u = uri then some none else none
  | _ => none

/-- The servlet last added for a path, if it was not deleted since. -/
def lastServlet (uri : Str) (calls : List (Call S)) : Option S :=
  (calls.reverse.findSome? (Call.about uri)).join

/-- The call adds or deletes this pattern. -/
def Call.touches (uri : Str) : Call S → Bool
  | .addGlobServlet u _ => u == uri
  | .delGlobServlet u => u == uri
  | _ => false

/-- The additions of patterns that no later call has touched, in their order. -/
def liveGlobs : List (Call S) → List (Str × S)
  | [] => []
  | .addGlobServlet uri slt :: later =>
      if later.any (Call.touches uri) then liveGlobs later else (uri, slt) :: liveGlobs later
  | _ :: later => liveGlobs later

/-- What a path is routed to, by the history. -/
def routed (fnmatch : Str → Str → Bool) (notFound : S) (calls : List (Call S)) (uri : Str) : S :=
  match lastServlet uri calls with
  | some slt => slt
  | none =>
      match (liveGlobs calls).find? fun e => fnmatch (cStr e.1) (cStr uri) with
      | some e => e.2
      | none => notFound

/-- The last call about a pattern decides. -/
theorem lastServlet_append (uri : Str) (calls : List (Call S)) (c : Call S) :
    lastServlet uri (calls ++ [c]) = (c.about uri).getD (lastServlet uri calls) := by
  rw [lastServlet, List.reverse_append, List.reverse_singleton, List.singleton_append,
    List.findSome?_cons]
  cases c.about uri <;> rfl

/-- A later call takes the entries with its own pattern out. -/
theorem liveGlobs_append (calls : List (Call S)) (c : Call S) :
    liveGlobs (calls ++ [c]) =
      ((liveGlobs calls).filter fun e => !c.touches e.1) ++ liveGlobs [c] := by
  induction calls with
  | nil => rfl
  | cons b calls ih =>
      cases b with
      | addGlobServlet uri slt =>
          rw [List.cons_append, liveGlobs, liveGlobs, List.any_append, ih]
          cases hlater : calls.any (Call.touches uri) with
          | true => simp
          | false =>
              cases htouches : c.touches uri with
              | true => simp [htouches]
              | false => simp [htouches]
      | addServlet uri slt | delServlet uri | delGlobServlet uri =>
          rw [List.cons_append, liveGlobs, liveGlobs, ih]
          all_goals exact nofun

/-- No pattern is in the history twice. -/
theorem nodup_liveGlobs (calls : List (Call S)) : ((liveGlobs calls).map Prod.fst).Nodup := by
  have hmem : ∀ (calls : List (Call S)) (e : Str × S), e ∈ liveGlobs calls →
      calls.any (Call.touches e.1) = true := by
    intro calls
    induction calls with
    | nil => exact nofun
    | cons b calls ih =>
        intro e he
        rw [List.any_cons, Bool.or_eq_true]
        cases b with
        | addGlobServlet uri slt =>
            rw [liveGlobs] at he
            split at he
            · exact Or.inr (ih e he)
            · rcases List.mem_cons.mp he with rfl | he
              · exact Or.inl (beq_self_eq_true uri)
              · exact Or.inr (ih e he)
        | addServlet uri slt | delServlet uri | delGlobServlet uri => exact Or.inr (ih e he)
  induction calls with
  | nil => exact List.nodup_nil
  | cons b calls ih =>
      cases b with
      | addGlobServlet uri slt =>
          rw [liveGlobs]
          split
          · exact ih
          · rename_i hlater
            rw [List.map_cons, List.nodup_cons]
            refine ⟨fun huri => ?_, ih⟩
            obtain ⟨e, he, rfl⟩ := List.mem_map.mp huri
            exact hlater (hmem calls e he)
      | addServlet uri slt | delServlet uri | delGlobServlet uri => exact ih

/-! ## The vector -/

/-- Where no pattern is there twice, erasing the first hit erases all. -/
theorem eraseGlob_eq_filter {globs : List (Str × S)} (h : (globs.map Prod.fst).Nodup)
    (uri : Str) : eraseGlob uri globs = globs.filter fun e => !(uri == e.1) := by
  induction globs with
  | nil => rfl
  | cons e globs ih =>
      rw [List.map_cons, List.nodup_cons] at h
      rw [eraseGlob]
      by_cases heq : e.1 = uri
      · have hrest : ∀ f ∈ globs, (!(uri == f.1)) = true := by
          intro f hf
          rw [Bool.not_eq_true', beq_eq_false_iff_ne]
          rintro rfl
          exact h.1 (heq ▸ List.mem_map_of_mem hf)
        rw [List.eraseP_cons_of_pos (by simpa using heq),
          List.filter_cons_of_neg (by simpa using heq.symm), List.filter_eq_self.mpr hrest]
      · rw [List.eraseP_cons_of_neg (by simpa using heq),
          List.filter_cons_of_pos (by simpa using Ne.symm heq), ← ih h.2]
        rfl

/-- The vector holds the live patterns of the history. -/
theorem globs_run (notFound : S) (calls : List (Call S)) :
    (run notFound calls).globs = liveGlobs calls := by
  induction calls using List.reverseRecOn with
  | nil => rfl
  | append_singleton calls c ih =>
      have herase : ∀ uri, eraseGlob uri (run notFound calls).globs =
          (liveGlobs calls).filter fun e => !(uri == e.1) := by
        intro uri
        rw [ih]
        exact eraseGlob_eq_filter (nodup_liveGlobs calls) uri
      rw [liveGlobs_append, run, List.foldl_append]
      cases c with
      | addGlobServlet uri slt => exact congrArg (· ++ [(uri, slt)]) (herase uri)
      | delGlobServlet uri => exact (herase uri).trans (List.append_nil _).symm
      | addServlet uri slt | delServlet uri =>
          refine ih.trans ?_
          have hall : (liveGlobs calls).filter (fun _ => !false) = liveGlobs calls :=
            List.filter_eq_self.mpr fun _ _ => rfl
          exact (hall.symm.trans (List.append_nil _).symm)

/-- The map holds what the history says about each path. -/
theorem datas_run (notFound : S) (calls : List (Call S)) (uri : Str) :
    (run notFound calls).datas uri = lastServlet uri calls := by
  induction calls using List.reverseRecOn with
  | nil => rfl
  | append_singleton calls c ih =>
      rw [lastServlet_append, ← ih, run, List.foldl_append]
      cases c with
      | addServlet u slt | delServlet u =>
          rw [Call.about]
          by_cases heq : u = uri
          · rw [if_pos heq]
            exact if_pos heq.symm
          · rw [if_neg heq]
            exact if_neg (Ne.symm heq)
      | addGlobServlet u slt | delGlobServlet u => rfl

/-- No call changes the default servlet. -/
theorem defaultServlet_run (notFound : S) (calls : List (Call S)) :
    (run notFound calls).defaultServlet = notFound := by
  induction calls using List.reverseRecOn with
  | nil => rfl
  | append_singleton calls c ih =>
      rw [run, List.foldl_append]
      cases c with
      | addServlet _ _ | addGlobServlet _ _ | delServlet _ | delGlobServlet _ => exact ih

/-- **Routing.**  After any calls a path is routed as their history says; no pattern is in
the vector twice, and a deletion leaves none with its pattern. -/
theorem getMatchedServlet_run (fnmatch : Str → Str → Bool) (notFound : S)
    (calls : List (Call S)) :
    (∀ uri, getMatchedServlet fnmatch (run notFound calls) uri =
      routed fnmatch notFound calls uri) ∧
    ((run notFound calls).globs.map Prod.fst).Nodup ∧
    ∀ uri, uri ∉ ((run notFound calls).delGlobServlet uri).globs.map Prod.fst := by
  have hnodup : ((run notFound calls).globs.map Prod.fst).Nodup := by
    rw [globs_run]
    exact nodup_liveGlobs calls
  refine ⟨fun uri => ?_, hnodup, fun uri huri => ?_⟩
  · rw [getMatchedServlet, routed, datas_run, globs_run, defaultServlet_run]
  · obtain ⟨e, he, rfl⟩ := List.mem_map.mp huri
    rw [delGlobServlet, eraseGlob_eq_filter hnodup] at he
    simpa using (List.mem_filter.mp he).2

end ServletDispatch

end Http

end Agent
