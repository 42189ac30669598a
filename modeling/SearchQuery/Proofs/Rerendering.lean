import SearchQuery.Proofs.Assembly

/-!
Requests that are rendered again. The request of a root draft can be the base of the same
draft without its clauses: the raw options and the settings find their last values in place
and are written over them, and thresholds are not written without alternatives. So the
request stays as it is, to the order of its keys, unless it has a query that a base must not
have.
-/
namespace SearchQuery

namespace Draft

/-- Whether a request object can be a base: it has no query, or one with a bool clause. -/
def CanBeBase (object : Object) : Prop :=
  object.get? "query" = none ∨
    ∃ query, object.get? "query" = some (.object query) ∧ Keyed.contains query "bool" = true

theorem baseHasBool_of_canBeBase {object : Object} (h : CanBeBase object) :
    ∃ hasBool, baseHasBool object = .ok hasBool := by
  obtain hnone | ⟨query, hquery, hbool⟩ := h
  · exact ⟨false, by simp [baseHasBool, hnone]⟩
  · exact ⟨true, by simp [baseHasBool, hquery, hbool]⟩

theorem baseHasBool_of_not_canBeBase {object : Object} (h : ¬ CanBeBase object) :
    baseHasBool object = .error (.structuralConflict "query") := by
  rw [CanBeBase, not_or] at h
  obtain ⟨hsome, hbool⟩ := h
  unfold baseHasBool
  split
  · next hnone => exact absurd hnone hsome
  · next query hquery => exact if_neg fun hcontains => hbool ⟨query, hquery, hcontains⟩
  · rfl

def restarted (draft : Draft) (object : Object) : Draft :=
  ((draft.resetClauses .query).resetClauses .filter).withBase object

theorem withClauses_of_no_clauses {draft : Draft} (hfilters : draft.filters = {})
    (hqueries : draft.queries = {}) (hasBool : Bool) :
    draft.withClauses hasBool draft.renderedClauses = .ok draft.base := by
  have hlone : draft.isLoneQuery hasBool = false := by
    simp [isLoneQuery, hqueries, ByMode.onlyOneAnd]
  have hclauses : draft.renderedClauses = noErrors {} {} := by
    rw [renderedClauses, hfilters, hqueries]
    rfl
  rw [withClauses_of_not_lone hlone, hclauses, writeClauses_empty]

/-- A root draft without clauses writes its raw options and its settings over its base. -/
theorem render_of_no_clauses {draft : Draft} (hroot : draft.placement = .root)
    (hfilters : draft.filters = {}) (hqueries : draft.queries = {})
    (hbase : CanBeBase draft.base) :
    draft.render = .ok (draft.base.extend (draft.rawOptions ++ draft.settings)) := by
  obtain ⟨hasBool, hbool⟩ := baseHasBool_of_canBeBase hbase
  have hfirst : draft.placement = .inFilter → draft.firstQuery? = none := by simp [hroot]
  rw [render_of_withClauses hfirst hbool (withClauses_of_no_clauses hfilters hqueries hasBool),
    finish_root hroot]

theorem render_of_not_canBeBase {draft : Draft} (hroot : draft.placement = .root)
    (hbase : ¬ CanBeBase draft.base) :
    draft.render = .error (.structuralConflict "query") := by
  have hfirst : draft.placement = .inFilter → draft.firstQuery? = none := by simp [hroot]
  rw [render_eq_assemble, assemble_of_no_query hfirst, baseHasBool_of_not_canBeBase hbase]
  rfl

/-- The request of a root draft comes out again, with its keys in the same order, when it is
the base of the draft without its clauses. Where it has a query without a bool clause, it
cannot be a base. -/
theorem render_restarted {draft : Draft} {object : Object} (hroot : draft.placement = .root)
    (h : draft.render = .ok object) :
    (CanBeBase object → (draft.restarted object).render = .ok object) ∧
      (¬ CanBeBase object →
        (draft.restarted object).render = .error (.structuralConflict "query")) := by
  constructor
  · intro hbase
    obtain ⟨_, request, -, -, -, hfinish⟩ := withClauses_of_render h
    rw [finish_root hroot] at hfinish
    obtain rfl := Except.ok.inj hfinish
    -- The draft keeps its raw options and its settings, so they are written twice.
    have hagain : (draft.restarted (request.extend (draft.rawOptions ++ draft.settings))).render =
        .ok ((request.extend (draft.rawOptions ++ draft.settings)).extend
          (draft.rawOptions ++ draft.settings)) :=
      render_of_no_clauses hroot rfl rfl hbase
    rwa [Keyed.extend_extend] at hagain
  · intro hbase
    have hplace : (draft.restarted object).placement = .root := hroot
    exact render_of_not_canBeBase hplace hbase

def colliding : Draft :=
  { base := Keyed.single "query" (.object (Keyed.single "bool" (.object [])))
    queries := ⟨[], [{ kind := "exists" }, { kind := "match_all" }], []⟩
    rawOptions := [("size", .int 1), ("a", .null), ("size", .int 2), ("a", .bool true)]
    sort := [("day", .desc)]
    size := some 3
    queryThreshold := some 1 }

def collidingLone : Draft :=
  { colliding with base := [], queries := ⟨[{ kind := "exists" }], [], []⟩ }

theorem render_restarted_colliding :
    (∃ object, colliding.render = .ok object ∧
      (colliding.restarted object).render = .ok object) ∧
      ∃ object, collidingLone.render = .ok object ∧
        (collidingLone.restarted object).render = .error (.structuralConflict "query") := by
  constructor
  · obtain ⟨object, hobject, hbase⟩ : ∃ object, colliding.render = .ok object ∧
        CanBeBase object := ⟨_, rfl, .inr ⟨_, rfl, rfl⟩⟩
    exact ⟨object, hobject, (render_restarted rfl hobject).1 hbase⟩
  · obtain ⟨object, hobject, hconflict⟩ : ∃ object, collidingLone.render = .ok object ∧
        baseHasBool object = .error (.structuralConflict "query") := ⟨_, rfl, rfl⟩
    have hbase : ¬ CanBeBase object := by
      intro hbase
      obtain ⟨hasBool, hbool⟩ := baseHasBool_of_canBeBase hbase
      simp [hbool] at hconflict
    exact ⟨object, hobject, (render_restarted rfl hobject).2 hbase⟩

end Draft

end SearchQuery
