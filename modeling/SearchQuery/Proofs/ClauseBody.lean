import SearchQuery.Proofs.SameDrafts

/-!
The body of a clause as three objects laid one over the other: the payload, the options and
what the owned draft contributes. Of the changes that made the clause the last one of the
payload counts and all those of the options do. A key has the value of the topmost layer
that holds it, and the place where the lowest such layer put it.
-/
namespace SearchQuery

namespace Clause

def Edit.payload? : Edit → Option Object
  | .field name => some (Keyed.single "field" (.string name))
  | .fieldValue name .null => some (Keyed.single "field" (.string name))
  | .fieldValue name value => some (Keyed.single name value)
  | .body object => some object
  | .option _ _ => none
  | .options _ => none

def Edit.options? : Edit → List (String × Value)
  | .option key value => [(key, value)]
  | .options object => object
  | _ => []

def lastPayload (edits : List Edit) : Object := (edits.filterMap Edit.payload?).getLast?.getD []

def writtenOptions (edits : List Edit) : List (String × Value) := edits.flatMap Edit.options?

def shaped (kind : String) : Option Draft → Rendered
  | none => .ok []
  | some child => child.render.map (nestedBody kind)

theorem edit_payload (clause : Clause) (change : Edit) :
    (clause.edit change).payload.object = change.payload?.getD clause.payload.object := by
  cases change with
  | fieldValue name value => cases value <;> rfl
  | _ => rfl

theorem edit_options (clause : Clause) (change : Edit) :
    (clause.edit change).options = clause.options.extend change.options? := by
  cases change with
  | fieldValue name value => cases value <;> rfl
  | _ => rfl

theorem edit_kind (clause : Clause) (change : Edit) : (clause.edit change).kind = clause.kind := by
  cases change with
  | fieldValue name value => cases value <;> rfl
  | _ => rfl

theorem foldl_edit (edits : List Edit) (start : Clause) :
    (edits.foldl edit start).kind = start.kind ∧
      (edits.foldl edit start).payload.object =
        (edits.filterMap Edit.payload?).getLast?.getD start.payload.object ∧
      (edits.foldl edit start).options = start.options.extend (writtenOptions edits) := by
  induction edits generalizing start with
  | nil => exact ⟨rfl, rfl, rfl⟩
  | cons change rest ih =>
    obtain ⟨hkind, hpayload, hoptions⟩ := ih (start.edit change)
    refine ⟨hkind.trans (edit_kind start change), ?_, ?_⟩
    · rw [List.foldl_cons, hpayload, edit_payload]
      cases hchange : change.payload? with
      | none => rw [List.filterMap_cons_none hchange, Option.getD_none]
      | some object =>
        rw [List.filterMap_cons_some hchange, List.getLast?_cons, Option.getD_some,
          Option.getD_some]
    · rw [List.foldl_cons, hoptions, edit_options, writtenOptions, writtenOptions,
        List.flatMap_cons, Keyed.extend_append]

/-- The body of a clause made by changes, without what it owns. -/
theorem ownBody_edited (kind : String) (edits : List Edit) :
    (edited kind edits).ownBody = (lastPayload edits).extend (writtenOptions edits) := by
  obtain ⟨-, hpayload, hoptions⟩ := foldl_edit edits { kind }
  rw [ownBody, edited, hpayload, hoptions]
  exact Keyed.extend_distinct _ _

/-- A clause fails to be rendered with the error of the draft that it owns. Otherwise its
body is the payload under the options under what the draft contributes. -/
theorem render_edited_eq (kind : String) (edits : List Edit) (nested : Option Draft) :
    Clause.render { edited kind edits with nested } = (shaped kind nested).map fun object =>
      Keyed.single kind (.object
        ((lastPayload edits).extend (writtenOptions edits ++ object))) := by
  have hkind : (edited kind edits).kind = kind := (foldl_edit edits { kind }).1
  have hbody := ownBody_edited kind edits
  generalize edited kind edits = made at hkind hbody ⊢
  subst hkind
  rw [render_eq]
  cases nested with
  | none =>
    change Except.ok (Keyed.single made.kind (Value.object made.ownBody)) = _
    rw [hbody, shaped, Except.map, List.append_nil]
  | some child =>
    change child.render.map (fun object => Keyed.single made.kind
      (Value.object (made.ownBody.extend (nestedBody made.kind object)))) = _
    rw [hbody, shaped]
    cases child.render with
    | error e => rfl
    | ok object => simp only [Except.map, Keyed.extend_append]

theorem distinct_nestedBody (kind : String) {child : Object} (h : child.Distinct) :
    (nestedBody kind child).Distinct :=
  (alike_nestedBody kind (Value.Distinct.alike h)).left

theorem distinct_shaped {kind : String} {nested : Option Draft}
    (hnested : ∀ child, nested = some child → child.Distinct) {object : Object}
    (h : shaped kind nested = .ok object) : object.Distinct := by
  cases nested with
  | none => exact Except.ok.inj h ▸ Object.distinct_nil
  | some child =>
    cases hchild : child.render with
    | error e => simp [shaped, hchild, Except.map] at h
    | ok inner =>
      simp only [shaped, hchild, Except.map, Except.ok.injEq] at h
      exact h ▸ distinct_nestedBody kind ((hnested child rfl).rendered hchild)

theorem nodup_lastPayload {edits : List Edit}
    (h : ∀ object, Edit.body object ∈ edits → object.keys.Nodup) :
    (lastPayload edits).keys.Nodup := by
  unfold lastPayload
  cases hlast : (edits.filterMap Edit.payload?).getLast? with
  | none => exact List.nodup_nil
  | some object =>
    obtain ⟨change, hmem, hchange⟩ := List.mem_filterMap.1 (List.mem_of_getLast? hlast)
    cases change with
    | body found =>
      obtain rfl := Option.some.inj hchange
      exact h found hmem
    | field name => exact Option.some.inj hchange ▸ by simp [Keyed.single, Keyed.keys]
    | fieldValue name value =>
      cases value <;> exact Option.some.inj hchange ▸ by simp [Keyed.single, Keyed.keys]
    | option key value => simp [Edit.payload?] at hchange
    | options object => simp [Edit.payload?] at hchange

/-- The keys of the body before the owned draft is merged in: those of the payload, then the
new ones of the options. -/
def ownKeys (edits : List Edit) : List String :=
  (lastPayload edits).keys ++
    Keyed.newKeys (lastPayload edits).keys (Keyed.keys (writtenOptions edits))

/-- A clause made by changes is rendered to its kind over its body, or fails with the error of
the draft that it owns. A key of the body has the value that the owned draft contributes, else
the last one written by an option, else the one of the last payload. The keys of the payload
come first, then the new ones of the options and then those of the draft, all without
repetition. -/
theorem render_edited {kind : String} {edits : List Edit} {nested : Option Draft}
    (hbodies : ∀ object, Edit.body object ∈ edits → object.keys.Nodup)
    (hnested : ∀ child, nested = some child → child.Distinct) :
    (∀ child e, nested = some child → child.render = .error e →
      Clause.render { edited kind edits with nested } = .error e) ∧
    ∀ object, shaped kind nested = .ok object → ∃ body : Object,
      Clause.render { edited kind edits with nested } = .ok (Keyed.single kind (.object body)) ∧
      (∀ key, body.get? key = ((object.get? key).or
        (Keyed.last? (writtenOptions edits) key)).or ((lastPayload edits).get? key)) ∧
      body.keys = ownKeys edits ++ object.keys.filter (· ∉ ownKeys edits) ∧
      body.keys.Nodup := by
  constructor
  · intro child e hchild herror
    rw [render_edited_eq, hchild, shaped, herror]
    rfl
  · intro object h
    have hkeys : object.keys.Nodup := (distinct_shaped hnested h).keys
    refine ⟨(lastPayload edits).extend (writtenOptions edits ++ object), ?_, ?_, ?_, ?_⟩
    · rw [render_edited_eq, h]
      rfl
    · intro key
      rw [Keyed.extend_append, Keyed.get?_extend, Keyed.get?_extend, Keyed.last?_of_nodup hkeys,
        Option.or_assoc]
    · have hown : ((lastPayload edits).extend (writtenOptions edits)).keys = ownKeys edits :=
        Keyed.keys_extend _ _
      rw [Keyed.extend_append, Keyed.keys_extend, Keyed.newKeys_of_nodup hkeys, hown]
    · exact Keyed.nodup_keys_extend (nodup_lastPayload hbodies) _

def overlaidEdits : List Edit :=
  [.field "path", .option "boost" (.int 1), .body [("slop", .null), ("boost", .int 0)],
    .options [("must", .int 2), ("lenient", .bool true)], .option "boost" (.int 3)]

def overlaidChild : Draft :=
  { placement := .inQuery, queries := ⟨[{ kind := "match_all" }], [], []⟩ }

theorem distinct_overlaidChild : overlaidChild.Distinct := by
  have hclauses : ∀ family mode, ∀ clause ∈ (overlaidChild.clauses family).get mode,
      clause = { kind := "match_all" } := by
    rintro (_ | _) (_ | _ | _) clause hclause <;>
      simp [overlaidChild, Draft.clauses, ByMode.get] at hclause
    exact hclause
  refine Draft.distinct_iff.2 ⟨⟨Object.distinct_nil, by simp [overlaidChild], ?_⟩, ?_⟩
  · intro family mode clause hclause
    obtain rfl := hclauses family mode clause hclause
    exact ⟨Object.distinct_nil, Object.distinct_nil⟩
  · intro family mode clause hclause child hchild
    obtain rfl := hclauses family mode clause hclause
    simp at hchild

theorem render_edited_overlaid :
    ∃ body : Object,
      Clause.render { edited "bool" overlaidEdits with nested := some overlaidChild } =
        .ok (Keyed.single "bool" (.object body)) ∧
      body.keys = ["slop", "boost", "must", "lenient"] ∧
      body.get? "boost" = some (.int 3) ∧
      body.get? "must" = some (.object (Keyed.single "match_all" (.object []))) := by
  have hbodies : ∀ object, Edit.body object ∈ overlaidEdits → object.keys.Nodup := by
    intro object hobject
    obtain rfl : object = [("slop", .null), ("boost", .int 0)] := by
      simpa [overlaidEdits] using hobject
    decide
  have hnested : ∀ child, some overlaidChild = some child → child.Distinct := by
    intro child hchild
    obtain rfl := Option.some.inj hchild
    exact distinct_overlaidChild
  have hshaped : shaped "bool" (some overlaidChild) =
      .ok (Keyed.single "must" (.object (Keyed.single "match_all" (.object [])))) := rfl
  obtain ⟨body, hrender, hget, hkeys, -⟩ := (render_edited hbodies hnested).2 _ hshaped
  refine ⟨body, hrender, ?_, ?_, ?_⟩
  · rw [hkeys]
    decide
  · rw [hget]
    rfl
  · rw [hget]
    rfl

end Clause

end SearchQuery
