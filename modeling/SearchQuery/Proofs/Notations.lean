import SearchQuery.Proofs.SortedDrafts
import SearchQuery.Proofs.TomlTables

/-!
Specs in both notations. The text of a spec in TOML is read as the spec with sorted keys, and
its text in JSON as the spec itself. Since the order of keys matters neither for what a spec
declares nor for what becomes of it, both texts lead to equal drafts and equal requests, or to
the same error.
-/
namespace SearchQuery.Spec

variable {spec : Spec}

theorem eq_of_mem_fieldEntry {α : Type} {key : String} {write : α → Value} {field : Option α}
    {entry : String × Value} (h : entry ∈ fieldEntry key write field) : entry.1 = key := by
  cases field with
  | none => simp [fieldEntry] at h
  | some a =>
    obtain rfl : entry = (key, write a) := by simpa [fieldEntry, Keyed.single] using h
    rfl

/-- A spec is written under the keys of the schema. -/
theorem mem_schemaKeys {entry : String × Value} (h : entry ∈ spec.toObject) :
    entry.1 ∈ schemaKeys := by
  obtain ⟨base, size, offset, queryThreshold, filterThreshold, sort, raw, clauses⟩ := spec
  simp only [toObject, settingsObject, Keyed.single, List.mem_append, List.mem_cons,
    List.not_mem_nil, or_false] at h
  rcases h with (((((h | h) | h) | h) | h) | h | h) | h
  iterate 5
    · rw [eq_of_mem_fieldEntry h]
      decide
  all_goals simp [h, schemaKeys]

theorem isBareKey_of_mem {entry : String × Value} (h : entry ∈ spec.toObject) :
    Toml.IsBareKey entry.1 := by
  have hall : ∀ key ∈ schemaKeys, Toml.IsBareKey key := by decide
  exact hall entry.1 (mem_schemaKeys h)

/-- Raw options that are objects have nothing behind their fields. -/
theorem cutRaw_of_objects {entries : List (String × Datum)}
    (h : ∀ entry ∈ entries, entry.1 = "raw" → ∃ objects : List (List (String × Datum)),
      entry.2 = .array (objects.map .object)) : cutRaw (.object entries) = .object entries := by
  have hself : ∀ entry ∈ entries,
      (if entry.1 = "raw" then (entry.1, cutRawList entry.2) else entry) = entry := by
    intro entry hentry
    split
    · next hkey =>
      obtain ⟨objects, hobjects⟩ := h entry hentry hkey
      have hcut : cutRawList entry.2 = entry.2 := by
        rw [hobjects, cutRawList, List.map_map]
        rfl
      rw [hcut]
    · rfl
  rw [cutRaw, List.map_congr_left hself, List.map_id']

/-- The raw options of a written spec are objects. -/
theorem raw_objects (hdistinct : (Value.object spec.toObject).Distinct) {value : Value}
    (h : ("raw", value) ∈ spec.toObject) :
    ∃ objects : List Object, value = .array (objects.map .object) := by
  have hkeys := (Value.distinct_object_iff.1 hdistinct).1
  have hraw := (get?_toObject spec).2.2.2.2.2.2.1
  rw [Keyed.get?_of_mem hkeys h] at hraw
  exact ⟨spec.raw.map rawOptionObject, by rw [Option.some.inj hraw, List.map_map]; rfl⟩

theorem cutRaw_keySorted (hdistinct : (Value.object spec.toObject).Distinct) :
    cutRaw (Value.object spec.toObject).keySorted.datum =
      (Value.object spec.toObject).keySorted.datum := by
  rw [Value.keySorted_object, Value.datum_object]
  refine cutRaw_of_objects fun entry hentry hkey => ?_
  obtain ⟨sorted, hsorted, rfl⟩ := List.mem_map.1 hentry
  obtain ⟨⟨key, value⟩, hmem, rfl⟩ := List.mem_map.1 ((Object.keySorted_perm _).mem_iff.1 hsorted)
  obtain rfl : key = "raw" := hkey
  obtain ⟨objects, rfl⟩ := raw_objects hdistinct hmem
  refine ⟨objects.map fun o => Value.entryData (Object.keySorted o), ?_⟩
  simp only [Value.keySorted_array, Value.datum_array, List.map_map]
  congr 2
  funext o
  exact Value.datum_object _

/-- The text of a spec in TOML is read as the object of the spec with sorted keys. -/
theorem tomlDatum?_text (hdistinct : (Value.object spec.toObject).Distinct)
    (hwhole : (Value.object spec.toObject).Whole)
    (hnull : (Value.object spec.toObject).NullFree)
    (hdepth : ∀ entry ∈ spec.toObject, entry.2.depth ≤ Toml.maxDepth) :
    tomlDatum? (spec.text .toml) = some (Value.object spec.toObject).keySorted.datum := by
  have hdatum : Toml.datum? (spec.text .toml) = some (Value.object spec.toObject).keySorted.datum :=
    Toml.datum?_text hdistinct fun entry hentry =>
      { key := isBareKey_of_mem hentry
        whole := Value.whole_object_iff.1 hwhole entry hentry
        nullFree := Value.nullFree_object_iff.1 hnull entry hentry
        depth := hdepth entry hentry }
  rw [tomlDatum?, hdatum, Option.map_some, cutRaw_keySorted hdistinct, Option.filter_some,
    if_pos (Value.isSound_datum _)]

theorem noNullValue_of_nullFree (h : (Value.object spec.toObject).NullFree) :
    spec.NoNullValue := by
  intro node hnode clause hclause hvalue
  have hget : Keyed.get? clause.toObject "value" = some .null := by
    rw [(ClauseSpec.get?_toObject clause).2.2.2.2.1, hvalue]
    rfl
  have hclause := (Value.occurs_of_get? hget).trans (occurs_clause hclause)
  exact h .null (hclause.trans hnode.occurs) rfl

/-- A spec is drafted alike with sorted keys, or fails with the same error. -/
theorem draft_keySorted (h : (Value.object spec.toObject).Distinct) :
    (∃ d e, spec.draft = .ok d ∧ spec.keySorted.draft = .ok e ∧ d.Alike e) ∨
      ∃ error, spec.draft = .error error ∧ spec.keySorted.draft = .error error := by
  have hdraft : ∀ spec : Spec, spec.draft = unlessFaulty spec.faults (spec.declared .root) :=
    addTo_fresh .root
  rw [hdraft, hdraft, faults_keySorted]
  cases spec.faults with
  | nil => exact .inl ⟨_, _, rfl, rfl, alike_declared h .root⟩
  | cons error rest => exact .inr ⟨error, rfl, rfl⟩

/-- A spec is rendered with sorted keys to an object that is equal up to the order of keys, or
fails with the same error. -/
theorem render_keySorted (h : (Value.object spec.toObject).Distinct) :
    (∃ o p, spec.render = .ok o ∧ spec.keySorted.render = .ok p ∧ Object.same o p = true) ∨
      ∃ error, spec.render = .error error ∧ spec.keySorted.render = .error error := by
  rw [render, render]
  rcases draft_keySorted h with ⟨d, e, hd, he, halike⟩ | ⟨error, hd, he⟩
  · rw [hd, he]
    simp only [bind, Except.bind]
    rcases agree_iff.1 (Draft.agree_render halike.left halike.right halike.same) with
      ⟨o, p, ho, hp, hobjects⟩ | ⟨error, ho, hp⟩
    · rw [ho, hp]
      exact .inl ⟨o, p, rfl, rfl, hobjects.same⟩
    · rw [ho, hp]
      exact .inr ⟨.draft error, rfl, rfl⟩
  · rw [hd, he]
    exact .inr ⟨error, rfl, rfl⟩

/-- Both notations say the same of a spec without nulls, whose numbers are whole ones that fit 64
bits and whose fields are nested as deep as TOML allows, which is less deep than JSON allows. The
text in JSON is read as the spec and the one in TOML as the spec with sorted keys; the drafts of
both are equal, and so are the requests up to the order of keys, or there is one error for
both. -/
theorem parse_text_notations (hdistinct : (Value.object spec.toObject).Distinct)
    (hwhole : (Value.object spec.toObject).Whole)
    (hnull : (Value.object spec.toObject).NullFree)
    (hdepth : ∀ entry ∈ spec.toObject, entry.2.depth ≤ Toml.maxDepth) :
    Spec.parse .json (spec.text .json) = .ok spec ∧
      Spec.parse .toml (spec.text .toml) = .ok spec.keySorted ∧
      ((∃ d e, spec.draft = .ok d ∧ spec.keySorted.draft = .ok e ∧ d.same e = true) ∨
        ∃ error, spec.draft = .error error ∧ spec.keySorted.draft = .error error) ∧
      ((∃ o p, spec.render = .ok o ∧ spec.keySorted.render = .ok p ∧ Object.same o p = true) ∨
        ∃ error, spec.render = .error error ∧ spec.keySorted.render = .error error) := by
  have hexact : (Value.object spec.toObject).Exact := ⟨hdistinct, hwhole⟩
  have hread : ofDatum? (Value.object spec.toObject).datum = some spec :=
    readTo?_toObject hexact (noNullValue_of_nullFree hnull) (Nat.lt_succ_self _)
  have hjson : Json.datum? (spec.text .json) = some (Value.object spec.toObject).datum := by
    have hdepth : (Value.object spec.toObject).depth ≤ Toml.maxDepth + 1 :=
      Value.depth_object_le_iff.2 hdepth
    exact Json.datum?_text hwhole (Nat.le_trans hdepth (by decide))
  have htoml := tomlDatum?_text hdistinct hwhole hnull hdepth
  have hsorted := readsSorted_ofDatum? _ hexact
  rw [hread, Option.map_some] at hsorted
  refine ⟨?_, ?_, ?_, render_keySorted hdistinct⟩
  · simp [parse, hjson, hread]
  · simp [parse, htoml, hsorted]
  · refine (draft_keySorted hdistinct).imp_left ?_
    rintro ⟨d, e, hd, he, halike⟩
    exact ⟨d, e, hd, he, halike.same⟩

/-- A spec with unsorted keys in its base, in a raw value and in what a clause carries, with
characters that need escapes and with the least whole number. -/
def unsorted : Spec :=
  { base := some [("b", .array [.bool true, .object [("y", .int (-9223372036854775808)),
      ("x\x7f", .string "\x01\n\x22\\/\u00e9😀")]]), ("a", .object [])]
    size := some 10
    sort := [⟨"day", some "DESC"⟩, ⟨"id", none⟩]
    raw := [("explain", .object [("d", .array []), ("c", .bool false)])]
    clauses := [{
      mode := .or
      kind := "nested"
      options := [("path", .string "c"), ("boost", .int 2)]
      nested := some {
        clauses := [{ kind := "match", field := some "t", value := some (.string "") }] } }] }

theorem parse_text_notations_unsorted :
    Spec.parse .json (unsorted.text .json) = .ok unsorted ∧
      Spec.parse .toml (unsorted.text .toml) = .ok unsorted.keySorted ∧
      ∃ o p, unsorted.render = .ok o ∧ unsorted.keySorted.render = .ok p ∧
        Object.same o p = true := by
  have hdistinct : (Value.object unsorted.toObject).Distinct := by
    simp [unsorted, toObject, settingsObject, fieldEntry, clauseValues, ClauseSpec.toObject,
      ClauseSpec.ownObject, carriedEntry, SortSpec.toObject, rawOptionObject, Keyed.single,
      Keyed.keys]
  have hwhole : (Value.object unsorted.toObject).Whole := by
    simp [unsorted, toObject, settingsObject, fieldEntry, clauseValues, ClauseSpec.toObject,
      ClauseSpec.ownObject, carriedEntry, SortSpec.toObject, rawOptionObject, Keyed.single]
  have hnull : (Value.object unsorted.toObject).NullFree := by
    simp [unsorted, toObject, settingsObject, fieldEntry, clauseValues, ClauseSpec.toObject,
      ClauseSpec.ownObject, carriedEntry, SortSpec.toObject, rawOptionObject, Keyed.single]
  have hdepth : ∀ entry ∈ unsorted.toObject, entry.2.depth ≤ Toml.maxDepth := by decide
  obtain ⟨hjson, htoml, -, hrender⟩ := parse_text_notations hdistinct hwhole hnull hdepth
  refine ⟨hjson, htoml, hrender.resolve_right ?_⟩
  rintro ⟨error, herror, -⟩
  have hfaults : unsorted.faults = [] := by decide
  have hdraft : unsorted.draft = .ok (unsorted.declared .root) := by
    have hdraft := addTo_fresh .root unsorted
    rwa [hfaults] at hdraft
  rw [render, hdraft] at herror
  cases herror

end SearchQuery.Spec
