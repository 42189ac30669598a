import SearchQuery.Draft.Equivalence
import SearchQuery.Proofs.Outline
import SearchQuery.Proofs.SameWriting

/-!
Drafts that are the same up to the order of keys. Two such drafts choose the same slots
and keys, since these are read off the shape of the draft alone, and their bases, bodies,
options and raw values are alike. So they write alike objects at every node of the tree, or
stop there with the same error.
-/
namespace SearchQuery

/-- Lists that are related place by place are so with what is known of their members. -/
theorem forall₂_mem {α β : Type} {r : α → β → Prop} {xs : List α} {ys : List β}
    (h : List.Forall₂ r xs ys) :
    List.Forall₂ (fun x y => x ∈ xs ∧ y ∈ ys ∧ r x y) xs ys := by
  refine List.forall₂_iff_zip.2 ⟨h.length_eq, fun hmem => ?_⟩
  obtain ⟨hx, hy⟩ := List.of_mem_zip hmem
  exact ⟨hx, hy, List.forall₂_zip h hmem⟩

theorem SortOrder.distinct_toValue (order : SortOrder) : order.toValue.Distinct := by
  refine Value.distinct_array_iff.2 fun value hvalue => ?_
  obtain ⟨field, -, rfl⟩ := List.mem_map.1 hvalue
  refine Value.distinct_object_iff.2
    ⟨by simp [fieldObject, Keyed.single, Keyed.keys], fun entry hentry => ?_⟩
  obtain rfl := List.mem_singleton.1 hentry
  exact Value.distinct_string _

namespace Draft

theorem distinct_of_mem_settings {draft : Draft} {entry : String × Value}
    (h : entry ∈ draft.settings) : entry.2.Distinct := by
  simp only [settings, List.mem_append, Option.mem_toList, Option.map_eq_some_iff] at h
  rcases h with (hsort | ⟨count, -, rfl⟩) | ⟨count, -, rfl⟩
  · split at hsort
    · simp at hsort
    · obtain rfl := List.mem_singleton.1 hsort
      exact draft.sort.distinct_toValue
  · exact Value.distinct_int _
  · exact Value.distinct_int _

/-- Drafts that are the same up to the order of keys and up to what is inside their
clauses. -/
structure Matches (d e : Draft) : Prop where
  base : d.base.Alike e.base
  placement : d.placement = e.placement
  rawOptions : List.Forall₂ (fun x y => x.1 = y.1 ∧ x.2.Alike y.2) d.rawOptions e.rawOptions
  sort : d.sort = e.sort
  size : d.size = e.size
  offset : d.offset = e.offset
  threshold : ∀ family, d.threshold family = e.threshold family
  outline : ∀ family, (d.clauses family).map Clause.outline = (e.clauses family).map Clause.outline

namespace Matches

variable {d e : Draft} (h : d.Matches e)

include h

theorem outlined : d.Outlined e := ⟨h.placement, h.threshold, h.outline⟩

theorem agree_writeGroup (family : Family) (mode : Mode) {group others : List Rendered}
    (hgroup : List.Forall₂ (Agree Object.Alike) group others) {request other : Object}
    (hrequest : request.Alike other) :
    Agree Object.Alike (d.writeGroup family mode group request)
      (e.writeGroup family mode others other) := by
  unfold writeGroup
  cases hgroup with
  | nil => exact hrequest
  | cons hhead htail =>
    refine (agree_collect (.cons hhead htail)).bind fun objects found hobjects => ?_
    rw [h.outlined.slot_eq, h.outlined.key_eq, h.threshold]
    refine Slot.agree_change (fun target another htarget => ?_) _ hrequest
    exact alike_raiseThreshold _ _ (alike_mergeClauses _ (alike_collapse hobjects) htarget)

variable {clauses others : RenderedClauses}
  (hclauses : ∀ family mode,
    List.Forall₂ (Agree Object.Alike) (clauses.get family mode) (others.get family mode))

include hclauses

theorem agree_writeClauses :
    Agree Object.Alike (d.writeClauses clauses) (e.writeClauses others) := by
  refine Agree.foldlM (fun group request other hrequest => ?_) groups h.base
  exact h.agree_writeGroup group.1 group.2 (hclauses group.1 group.2) hrequest

theorem agree_withClauses (hasBool : Bool) :
    Agree Object.Alike (d.withClauses hasBool clauses) (e.withClauses hasBool others) := by
  unfold withClauses
  rw [h.outlined.isLoneQuery_eq]
  cases e.isLoneQuery hasBool with
  | false => exact h.agree_writeClauses hclauses
  | true =>
    have hqueries : List.Forall₂ (Agree Object.Alike) clauses.queries.and others.queries.and :=
      hclauses .query .and
    generalize clauses.queries.and = group at hqueries ⊢
    generalize others.queries.and = another at hqueries ⊢
    cases hqueries with
    | nil => exact h.agree_writeClauses hclauses
    | cons hlone =>
      exact hlone.bind fun object other hobject => h.base.insert "query" hobject

omit hclauses

theorem alike_writeRawOptions {request other : Object} (hrequest : request.Alike other) :
    (d.writeRawOptions request).Alike (e.writeRawOptions other) :=
  hrequest.extend_list h.rawOptions

theorem alike_writeSettings {request other : Object} (hrequest : request.Alike other) :
    (d.writeSettings request).Alike (e.writeSettings other) := by
  have hsettings : d.settings = e.settings := by
    rw [settings, settings, h.sort, h.size, h.offset]
  rw [writeSettings_eq, writeSettings_eq, hsettings]
  exact hrequest.extend_list (List.forall₂_same.2 fun entry hentry =>
    ⟨rfl, (distinct_of_mem_settings hentry).alike⟩)

theorem agree_finish {request other : Object} (hrequest : request.Alike other) :
    Agree Object.Alike (d.finish request) (e.finish other) := by
  have hraw := h.alike_writeRawOptions hrequest
  unfold finish
  rw [h.placement]
  split
  · exact agree_nestedResult hraw
  · exact h.alike_writeSettings hraw

include hclauses

/-- Two drafts that match and have rendered their clauses alike have alike objects, or stop
with the same error. -/
theorem agree_assemble : Agree Object.Alike (d.assemble clauses) (e.assemble others) := by
  -- The first query of both drafts has one kind, and it is all that a query error shows.
  rcases h.outlined.firstQuery?_cases with
    ⟨clause, other, hplace, hbelow, hclause, hother, hkind⟩ | ⟨hnone, hother⟩
  · rw [assemble_of_query hplace hclause, assemble_of_query hbelow hother, hkind]
    rfl
  · rw [assemble_of_no_query hnone, assemble_of_no_query hother, baseHasBool_eq h.base]
    cases baseHasBool e.base with
    | error e => rfl
    | ok hasBool =>
      exact (h.agree_withClauses hclauses hasBool).bind fun request other hrequest =>
        h.agree_finish hrequest

end Matches

end Draft

namespace Clause

/-- Clauses of one kind with alike bodies and drafts that are rendered alike are rendered
alike. -/
theorem agree_render {clause other : Clause} (hkind : clause.kind = other.kind)
    (hbody : clause.ownBody.Alike other.ownBody)
    (hnested : Option.Rel (fun d e : Draft => Agree Object.Alike d.render e.render)
      clause.nested other.nested) :
    Agree Object.Alike clause.render other.render := by
  rw [render_eq, render_eq]
  cases hx : clause.nested with
  | none =>
    cases hy : other.nested with
    | some e => simp [hx, hy] at hnested
    | none =>
      unfold rendered
      rw [hkind]
      exact Object.alike_single hbody other.kind
  | some d =>
    cases hy : other.nested with
    | none => simp [hx, hy] at hnested
    | some e =>
      have hdrafts : Agree Object.Alike d.render e.render := by simpa [hx, hy] using hnested
      refine hdrafts.map fun object found hobject => ?_
      unfold rendered
      rw [hkind]
      exact Object.alike_single (hbody.extend (alike_nestedBody other.kind hobject)) other.kind

end Clause

/-! Equality of drafts, opened one level at a time. -/

theorem sameLists_iff {α : Type} {same : α → α → Bool} {xs ys : List α} :
    sameLists same xs ys = true ↔ List.Forall₂ (fun x y => same x y = true) xs ys := by
  induction xs generalizing ys with
  | nil => cases ys <;> simp [sameLists]
  | cons x rest ih => cases ys <;> simp [sameLists, ih]

theorem sameClauses_iff {xs ys : List Clause} :
    sameClauses xs ys = true ↔ List.Forall₂ (fun x y => x.same y = true) xs ys := by
  induction xs generalizing ys with
  | nil => cases ys <;> simp [sameClauses]
  | cons x rest ih => cases ys <;> simp [sameClauses, ih]

theorem sameGroups_iff {groups others : ByMode Clause} :
    sameGroups groups others = true ↔
      ∀ mode, List.Forall₂ (fun x y => x.same y = true) (groups.get mode) (others.get mode) := by
  obtain ⟨and, or, not⟩ := groups
  simp only [sameGroups, Bool.and_eq_true, sameClauses_iff]
  constructor
  · rintro ⟨⟨hand, hor⟩, hnot⟩ (_ | _ | _)
    · exact hand
    · exact hor
    · exact hnot
  · intro h
    exact ⟨⟨h .and, h .or⟩, h .not⟩

theorem sameNested_iff {x y : Option Draft} :
    sameNested x y = true ↔ Option.Rel (fun d e => d.same e = true) x y := by
  cases x <;> cases y <;> simp [sameNested]

theorem Clause.same_iff {clause other : Clause} :
    clause.same other = true ↔ clause.kind = other.kind ∧
      clause.payload.same other.payload = true ∧
      Object.same clause.options other.options = true ∧
      Option.Rel (fun d e => d.same e = true) clause.nested other.nested := by
  obtain ⟨kind, payload, options, nested⟩ := clause
  simp [Clause.same, sameNested_iff, and_assoc]

theorem Draft.same_iff {d e : Draft} :
    d.same e = true ↔ d.sameSettings e = true ∧
      ∀ family mode, List.Forall₂ (fun x y => x.same y = true)
        ((d.clauses family).get mode) ((e.clauses family).get mode) := by
  obtain ⟨base, placement, filters, queries, rawOptions, sort, size, offset, filterThreshold,
    queryThreshold⟩ := d
  rw [Draft.same, Bool.and_eq_true, Bool.and_eq_true, sameGroups_iff, sameGroups_iff, and_assoc]
  refine and_congr Iff.rfl ⟨fun h => ?_, fun h => ⟨h .filter, h .query⟩⟩
  rintro (_ | _)
  · exact h.1
  · exact h.2

theorem Payload.same_object {p q : Payload} (h : p.same q = true) :
    Object.same p.object q.object = true := by
  cases p <;> cases q <;> simp only [Payload.same, Bool.false_eq_true] at h
  case empty.empty => rfl
  case field.field m n =>
    obtain rfl := beq_iff_eq.1 h
    exact (Object.alike_single (Value.distinct_string m).alike "field").same
  case fieldValue.fieldValue m v n w =>
    rw [Bool.and_eq_true, beq_iff_eq] at h
    obtain ⟨rfl, hvalue⟩ := h
    simp [Payload.object, Object.same, Value.same, Value.sameEntries, Keyed.single,
      Keyed.get?_cons, hvalue]
  case body.body d e => exact h

theorem Payload.same_self {payload : Payload} (h : payload.object.Distinct) :
    payload.same payload = true := by
  cases payload with
  | empty => rfl
  | field name => exact beq_self_eq_true name
  | fieldValue name value =>
    obtain ⟨-, hvalue⟩ := Value.distinct_object_iff.1 h
    have hsame : value.same value = true := (hvalue (name, value) List.mem_cons_self).alike.same
    rw [Payload.same, hsame, beq_self_eq_true]
    rfl
  | body object => exact (Value.Distinct.alike h).same

structure Clause.OwnDistinct (clause : Clause) : Prop where
  payload : clause.payload.object.Distinct
  options : clause.options.Distinct

structure Draft.OwnDistinct (draft : Draft) : Prop where
  base : draft.base.Distinct
  rawOptions : ∀ option ∈ draft.rawOptions, option.2.Distinct
  clauses : ∀ family mode, ∀ clause ∈ (draft.clauses family).get mode, clause.OwnDistinct

/-- Whether no object anywhere in the tree of a draft has a key twice, as is true of all
objects from outside. -/
def Draft.Distinct (draft : Draft) : Prop := ∀ node, draft.Holds node → node.OwnDistinct

theorem Clause.alike_ownBody {clause other : Clause} (hclause : clause.OwnDistinct)
    (hother : other.OwnDistinct) (h : clause.same other = true) :
    clause.ownBody.Alike other.ownBody := by
  obtain ⟨-, hpayload, hoptions, -⟩ := Clause.same_iff.1 h
  have hbody : clause.payload.object.Alike other.payload.object :=
    ⟨hclause.payload, hother.payload, Payload.same_object hpayload⟩
  have hover : Object.Alike clause.options other.options :=
    ⟨hclause.options, hother.options, hoptions⟩
  exact hbody.extend hover

theorem Clause.outline_of_same {clause other : Clause} (h : clause.same other = true) :
    clause.outline = other.outline := by
  obtain ⟨hkind, -, -, hnested⟩ := Clause.same_iff.1 h
  rw [outline, outline, hkind, isNested, isNested, isSome_eq_of_rel hnested]

namespace Draft

variable {d e : Draft}

theorem OwnDistinct.matches (hd : d.OwnDistinct) (he : e.OwnDistinct) (h : d.same e = true) :
    d.Matches e := by
  obtain ⟨hsettings, hclauses⟩ := same_iff.1 h
  simp only [sameSettings, Bool.and_eq_true, beq_iff_eq, sameRawOptions, sameLists_iff]
    at hsettings
  obtain ⟨⟨⟨⟨⟨⟨⟨hbase, hplacement⟩, hraw⟩, hsort⟩, hsize⟩, hoffset⟩, hfilter⟩, hquery⟩ := hsettings
  refine ⟨⟨hd.base, he.base, hbase⟩, hplacement, ?_, hsort, hsize, hoffset, ?_, ?_⟩
  · refine (forall₂_mem hraw).imp fun x y ⟨hx, hy, hkey, hvalue⟩ => ?_
    exact ⟨hkey, hd.rawOptions x hx, he.rawOptions y hy, hvalue⟩
  · rintro (_ | _)
    · exact hfilter
    · exact hquery
  · intro family
    refine ByMode.eq_of_get fun mode => ?_
    rw [ByMode.get_map, ByMode.get_map, ← List.forall₂_eq_eq_eq, List.forall₂_map_left_iff,
      List.forall₂_map_right_iff]
    exact (hclauses family mode).imp fun _ _ => Clause.outline_of_same

/-- The keys in a draft are distinct exactly if its own are and those below each clause. -/
theorem distinct_iff : d.Distinct ↔ d.OwnDistinct ∧
    ∀ family mode, ∀ clause ∈ (d.clauses family).get mode, ∀ child,
      clause.nested = some child → child.Distinct := by
  constructor
  · intro h
    refine ⟨h d (.self d), fun family mode clause hclause child hchild node hnode => ?_⟩
    exact h node (.owned hclause hchild hnode)
  · rintro ⟨hown, hbelow⟩ node hnode
    cases hnode with
    | self => exact hown
    | owned hclause hchild hnode => exact hbelow _ _ _ hclause _ hchild node hnode

/-- Two drafts that are the same up to the order of keys are rendered to objects that are,
or fail alike. By induction over the tree: what a draft reads of its clauses is their
outline and the objects that they are rendered to. -/
theorem agree_render (hd : d.Distinct) (he : e.Distinct) (h : d.same e = true) :
    Agree Object.Alike d.render e.render := by
  induction d using tree_induction generalizing e with
  | step d ih =>
    obtain ⟨hown, hbelow⟩ := distinct_iff.1 hd
    obtain ⟨hother, hunder⟩ := distinct_iff.1 he
    rw [render_eq_assemble, render_eq_assemble]
    refine (hown.matches hother h).agree_assemble fun family mode => ?_
    rw [get_renderedClauses, get_renderedClauses, List.forall₂_map_left_iff,
      List.forall₂_map_right_iff]
    have hpairs := forall₂_mem ((same_iff.1 h).2 family mode)
    refine hpairs.imp fun clause other ⟨hclause, hmem, hsame⟩ => ?_
    obtain ⟨hkind, -, -, hnested⟩ := Clause.same_iff.1 hsame
    refine Clause.agree_render hkind (Clause.alike_ownBody
      (hown.clauses family mode clause hclause) (hother.clauses family mode other hmem) hsame) ?_
    cases hx : clause.nested with
    | none =>
      cases hy : other.nested with
      | none => exact .none
      | some below => simp [hx, hy] at hnested
    | some child =>
      cases hy : other.nested with
      | none => simp [hx, hy] at hnested
      | some below =>
        have hchildren : child.same below = true := by simpa [hx, hy] using hnested
        exact .some (ih family mode clause child hclause hx
          (hbelow family mode clause hclause child hx)
          (hunder family mode other hmem below hy) hchildren)

/-- A draft is the same as itself. -/
theorem Distinct.same_self (h : d.Distinct) : d.same d = true := by
  induction d using tree_induction with
  | step d ih =>
    obtain ⟨hown, hbelow⟩ := distinct_iff.1 h
    have hbase : Object.same d.base d.base = true := (Value.Distinct.alike hown.base).same
    have hraw : sameRawOptions d.rawOptions d.rawOptions = true := by
      refine sameLists_iff.2 (List.forall₂_same.2 fun option hoption => ?_)
      rw [(hown.rawOptions option hoption).alike.same, beq_self_eq_true]
      rfl
    refine same_iff.2 ⟨by simp [sameSettings, hbase, hraw], fun family mode => ?_⟩
    refine List.forall₂_same.2 fun clause hclause => Clause.same_iff.2 ?_
    obtain ⟨hpayload, hoptions⟩ := hown.clauses family mode clause hclause
    refine ⟨rfl, Payload.same_self hpayload, (Value.Distinct.alike hoptions).same, ?_⟩
    cases hnested : clause.nested with
    | none => exact .none
    | some child =>
      exact .some (ih family mode clause child hclause hnested
        (hbelow family mode clause hclause child hnested))

/-- The object of a draft has no key twice, nor has any object inside it. -/
theorem Distinct.rendered (h : d.Distinct) {object : Object} (hobject : d.render = .ok object) :
    object.Distinct := by
  have hself := agree_render h h h.same_self
  rw [hobject] at hself
  exact hself.left

/-- Rendering respects equality of drafts up to the order of keys: both drafts are rendered,
to objects that are equal in the same way, or both fail with the same error. -/
theorem render_of_same (hd : d.Distinct) (he : e.Distinct) (h : d.same e = true) :
    (∃ o p, d.render = .ok o ∧ e.render = .ok p ∧ Object.same o p = true) ∨
      ∃ error, d.render = .error error ∧ e.render = .error error := by
  rcases agree_iff.1 (agree_render hd he h) with ⟨o, p, ho, hp, halike⟩ | herror
  · exact .inl ⟨o, p, ho, hp, halike.same⟩
  · exact .inr herror

def arrangedBelow (order : Object → Object) : Draft :=
  { placement := .inQuery
    base := order [("min_score", .int 1), ("track_scores", .bool true)] }

def arrangedOwner (order : Object → Object) : Clause :=
  { kind := "nested"
    payload := .body (order [("path", .string "a"), ("score_mode", .string "max")])
    nested := some (arrangedBelow order) }

def arranged (order : Object → Object) : Draft :=
  { base := Keyed.single "query" (.object (Keyed.single "bool" (.object
      (order [("must", .array []), ("boost", .int 2)]))))
    queries := ⟨[], [arrangedOwner order], []⟩
    rawOptions := [("collapse", .object (order [("field", .string "c"), ("size", .int 3)]))] }

theorem eq_of_mem_arranged {order : Object → Object} {family : Family} {mode : Mode}
    {clause : Clause} (h : clause ∈ ((arranged order).clauses family).get mode) :
    clause = arrangedOwner order := by
  cases family <;> cases mode <;> simp [arranged, clauses, ByMode.get] at h
  exact h

theorem distinct_arranged {order : Object → Object} (h : ∀ o, (order o).Perm o) :
    (arranged order).Distinct := by
  have hkeys : ∀ o : Object, ((order o).map (·.1)).Nodup ↔ (o.map (·.1)).Nodup :=
    fun o => ((h o).map (·.1)).nodup_iff
  have hmem : ∀ (o : Object) (entry : String × Value), entry ∈ order o ↔ entry ∈ o :=
    fun o entry => (h o).mem_iff
  have hbelow : (arrangedBelow order).Distinct := by
    have hnone : ∀ family mode clause,
        clause ∉ ((arrangedBelow order).clauses family).get mode := by
      rintro (_ | _) (_ | _ | _) clause <;> simp [arrangedBelow, clauses, ByMode.get]
    refine distinct_iff.2 ⟨⟨?_, by simp [arrangedBelow], ?_⟩, ?_⟩
    · simp [arrangedBelow, Object.distinct_iff, Keyed.keys, hkeys, hmem]
    · exact fun family mode clause hclause => absurd hclause (hnone family mode clause)
    · exact fun family mode clause hclause => absurd hclause (hnone family mode clause)
  refine distinct_iff.2 ⟨⟨?_, ?_, ?_⟩, ?_⟩
  · simp [arranged, Object.distinct_iff, Keyed.single, Keyed.keys, hkeys, hmem]
  · simp [arranged, Keyed.keys, hkeys, hmem]
  · intro family mode clause hclause
    obtain rfl := eq_of_mem_arranged hclause
    constructor <;>
      simp [arrangedOwner, Payload.object, Object.distinct_iff, Keyed.keys, hkeys, hmem]
  · intro family mode clause hclause child hchild
    obtain rfl := eq_of_mem_arranged hclause
    obtain rfl := Option.some.inj hchild
    exact hbelow

theorem render_of_same_arranged :
    ∃ o p, (arranged id).render = .ok o ∧ (arranged List.reverse).render = .ok p ∧
      Object.same o p = true := by
  have hsame : (arranged id).same (arranged List.reverse) = true := by
    simp [arranged, arrangedOwner, arrangedBelow, Draft.same, Draft.sameSettings, sameGroups,
      sameClauses, Clause.same, sameNested, Payload.same, Object.same, Value.same,
      Value.sameEntries, Value.sameItems, Keyed.get?_cons, Keyed.single, sameRawOptions, sameLists]
  rcases render_of_same (distinct_arranged fun o => .refl o)
    (distinct_arranged List.reverse_perm) hsame with hok | ⟨error, herror, -⟩
  · exact hok
  · cases herror

end Draft

end SearchQuery
