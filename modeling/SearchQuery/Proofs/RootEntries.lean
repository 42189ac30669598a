import SearchQuery.Proofs.Assembly

/-!
Where the entries of a root request come from. Four layers are written one over the other:
the base, the clauses under the query, the raw options and the settings. A key has the value
of the last layer that writes it and stands where the first one put it, so that what a raw
option or a setting overwrites is still in its old place.
-/
namespace SearchQuery

namespace Draft

variable {draft : Draft}

def hasClauses (draft : Draft) : Bool := draft.has .filter none || draft.has .query none

def settingKeys : List String := ["sort", "size", "from"]

def setting? (draft : Draft) (key : String) : Option Value :=
  if key = "sort" then if draft.sort.isEmpty then none else some draft.sort.toValue
  else if key = "size" then draft.size.map fun count => .int count.toNat
  else if key = "from" then draft.offset.map fun count => .int count.toNat
  else none

def bare (draft : Draft) : Draft :=
  { draft with rawOptions := [], sort := [], size := none, offset := none }

/-- The keys of a root request: those of the base, the query if there is a clause, those of the
raw options and those of the settings, each key where it first comes. -/
def rootKeys (draft : Draft) : List String :=
  let placed := draft.base.keys ++
    Keyed.newKeys draft.base.keys (if draft.hasClauses then ["query"] else [])
  let rawPlaced := placed ++ Keyed.newKeys placed (Keyed.keys draft.rawOptions)
  rawPlaced ++
    Keyed.newKeys rawPlaced (settingKeys.filter fun key => (draft.setting? key).isSome)

theorem keys_settings (draft : Draft) :
    Keyed.keys draft.settings = settingKeys.filter fun key => (draft.setting? key).isSome := by
  unfold settings settingKeys setting?
  cases draft.sort.isEmpty <;> cases draft.size <;> cases draft.offset <;> rfl

theorem last?_settings (draft : Draft) (key : String) :
    Keyed.last? draft.settings key = draft.setting? key := by
  by_cases hkey : key ∈ settingKeys
  · simp only [settingKeys, List.mem_cons, List.not_mem_nil, or_false] at hkey
    unfold settings setting?
    rcases hkey with rfl | rfl | rfl <;>
      cases draft.sort.isEmpty <;> cases draft.size <;> cases draft.offset <;> rfl
  · have hnone : key ∉ Keyed.keys draft.settings := by
      rw [keys_settings, List.mem_filter]
      exact fun h => hkey h.1
    simp only [settingKeys, List.mem_cons, List.not_mem_nil, or_false, not_or] at hkey
    rw [Keyed.last?_eq_none hnone, setting?, if_neg hkey.1, if_neg hkey.2.1, if_neg hkey.2.2]

theorem withClauses_bare (draft : Draft) (hasBool : Bool) :
    draft.bare.withClauses hasBool draft.bare.renderedClauses =
      draft.withClauses hasBool draft.renderedClauses := rfl

/-- Without raw options and settings a root draft yields its request object as it is. -/
theorem render_bare (hroot : draft.placement = .root) {hasBool : Bool}
    (hbase : baseHasBool draft.base = .ok hasBool) {request : Object}
    (h : draft.withClauses hasBool draft.renderedClauses = .ok request) :
    draft.bare.render = .ok request := by
  have hplace : draft.bare.placement = .root := hroot
  have hfirst : draft.bare.placement = .inFilter → draft.bare.firstQuery? = none := by
    simp [hplace]
  have hrequest := (withClauses_bare draft hasBool).trans h
  calc draft.bare.render
    _ = draft.bare.finish request := render_of_withClauses hfirst hbase hrequest
    _ = .ok (request.extend (draft.bare.rawOptions ++ draft.bare.settings)) :=
      finish_root hplace request
    _ = .ok request := rfl

theorem Built.hasClauses_iff {filters queries : ByMode Object}
    (h : draft.Built filters queries) :
    draft.hasClauses = true ↔ filters.toList ≠ [] ∨ queries.toList ≠ [] := by
  rw [hasClauses, Bool.or_eq_true, h.has_iff, h.has_iff, byFamily, byFamily]

/-- The clauses of a root draft write nothing but the query, and only if there are any. -/
theorem Written.root_request {filters queries : ByMode Object} {request : Object}
    (hroot : draft.placement = .root) (hbuilt : draft.Built filters queries)
    (h : draft.Written filters queries request) :
    (draft.hasClauses = false ∧ request = draft.base) ∨
      draft.hasClauses = true ∧ ∃ value, request = draft.base.insert "query" value := by
  cases h with
  | lone object _ _ _ hqueries =>
    refine .inr ⟨hbuilt.hasClauses_iff.2 (.inr ?_), _, rfl⟩
    simp [hqueries, ByMode.toList]
  | nothing hfilters hqueries =>
    refine .inl ⟨?_, rfl⟩
    rw [← Bool.not_eq_true, hbuilt.hasClauses_iff, hfilters, hqueries]
    simp [ByMode.toList]
  | inQuery _ hplace => simp [hroot] at hplace
  | inBool query body filled _ hsome =>
    exact .inr ⟨hbuilt.hasClauses_iff.2 hsome, _, rfl⟩

/-- A root request has the entries of four layers. A key has the setting of the draft, else
its last raw option, else, for the query of a draft with clauses, what these alone leave in
the base, else the value of the base. The keys come in the order in which the layers bring
them, without repetition. -/
theorem entries_of_root (hroot : draft.placement = .root) (hbase : draft.base.keys.Nodup)
    {object : Object} (h : draft.render = .ok object) :
    object.keys = draft.rootKeys ∧ object.keys.Nodup ∧
      ∃ request, draft.bare.render = .ok request ∧ ∀ key, object.get? key =
        ((draft.setting? key).or (Keyed.last? draft.rawOptions key)).or
          (if key = "query" ∧ draft.hasClauses then request.get? key
            else draft.base.get? key) := by
  obtain ⟨hasBool, request, hfirst, hbool, hrequest, hfinish⟩ := withClauses_of_render h
  rw [finish_root hroot] at hfinish
  obtain rfl := Except.ok.inj hfinish
  obtain ⟨filters, queries, hbuilt, hwritten⟩ := exists_written hfirst hbool hrequest
  have hcases := hwritten.root_request hroot hbuilt
  have hplaced : request.keys = draft.base.keys ++
      Keyed.newKeys draft.base.keys (if draft.hasClauses then ["query"] else []) := by
    rcases hcases with ⟨hnone, rfl⟩ | ⟨hsome, value, rfl⟩
    · rw [if_neg (by simp [hnone]), Keyed.newKeys]
      simp
    · rw [if_pos hsome]
      exact Keyed.keys_extend draft.base [("query", value)]
  have hget : ∀ key, request.get? key = if key = "query" ∧ draft.hasClauses then
      request.get? key else draft.base.get? key := by
    intro key
    split
    · rfl
    · next hother =>
      rcases hcases with ⟨-, rfl⟩ | ⟨hsome, value, rfl⟩
      · rfl
      · exact Keyed.get?_insert_of_ne _ _ fun hkey => hother ⟨hkey, hsome⟩
  refine ⟨?_, ?_, request, render_bare hroot hbool hrequest, fun key => ?_⟩
  · rw [Keyed.extend_append, Keyed.keys_extend, Keyed.keys_extend, hplaced, keys_settings,
      rootKeys]
  · refine Keyed.nodup_keys_extend ?_ _
    rcases hcases with ⟨-, rfl⟩ | ⟨-, value, rfl⟩
    · exact hbase
    · exact Keyed.nodup_keys_insert hbase "query" value
  · rw [Keyed.extend_append, Keyed.get?_extend, Keyed.get?_extend, last?_settings,
      ← hget, Option.or_assoc]

def layered : Draft :=
  { base := [("from", .int 7), ("explain", .bool true)]
    queries := ⟨[{ kind := "match_all" }], [], []⟩
    rawOptions := [("size", .int 1), ("stats", .int 1), ("explain", .null), ("stats", .int 2)]
    sort := [("day", .desc)]
    size := some 3
    offset := some 4 }

theorem entries_of_root_layered :
    ∃ object, layered.render = .ok object ∧
      object.keys = ["from", "explain", "query", "size", "stats", "sort"] ∧
      object.get? "size" = some (.int 3) ∧ object.get? "stats" = some (.int 2) ∧
      object.get? "from" = some (.int 4) ∧ object.get? "explain" = some .null ∧
      object.get? "query" = some (.object (Keyed.single "match_all" (.object []))) := by
  obtain ⟨object, hobject⟩ : ∃ object, layered.render = .ok object := ⟨_, rfl⟩
  obtain ⟨hkeys, -, request, hrequest, hget⟩ := entries_of_root rfl (by decide) hobject
  obtain rfl := Except.ok.inj hrequest
  refine ⟨object, hobject, ?_, ?_, ?_, ?_, ?_, ?_⟩
  · rw [hkeys]
    decide
  all_goals
    rw [hget]
    rfl

end Draft

end SearchQuery
