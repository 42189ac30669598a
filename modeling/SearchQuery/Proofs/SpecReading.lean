import Mathlib.Data.List.Nodup
import SearchQuery.Proofs.Drafting
import SearchQuery.Proofs.JsonReading
import SearchQuery.Proofs.ToldApart
import SearchQuery.Spec.Schema
import SearchQuery.Spec.Written

/-!
Reading a spec from the object in which it is written. Each record is read field by field: a
field that is written is found under its key and read as itself, and one that is left out
counts as absent. A list of records is never taken for one record, since the fields of a
record are no objects where its first field has to be a word or a text. So a spec is read
back from its text, with the specs inside it at every depth.
-/
namespace SearchQuery

namespace Value

/-- Whether a value is kept when it is said by a datum: its numbers are whole ones that fit 64
bits, and none of its objects has a key twice. -/
structure Exact (value : Value) : Prop where
  distinct : value.Distinct
  whole : value.Whole

theorem Exact.item {values : List Value} (h : (Value.array values).Exact) {value : Value}
    (hvalue : value ∈ values) : value.Exact where
  distinct := distinct_array_iff.1 h.distinct value hvalue
  whole := whole_array_iff.1 h.whole value hvalue

theorem Exact.of_get? {o : Object} (h : (Value.object o).Exact) {key : String} {value : Value}
    (hvalue : o.get? key = some value) : value.Exact where
  distinct := (distinct_object_iff.1 h.distinct).2 _ (Keyed.mem_of_get? hvalue)
  whole := whole_object_iff.1 h.whole _ (Keyed.mem_of_get? hvalue)

theorem Exact.value?_datum {value : Value} (h : value.Exact) : value.datum.value? = some value :=
  Value.value?_datum h.distinct h.whole

theorem Exact.object?_datum {o : Object} (h : (Value.object o).Exact) :
    (Value.object o).datum.object? = some o := by
  rw [Datum.object?, h.value?_datum]

def entryData (o : Object) : List (String × Datum) := o.map fun entry => (entry.1, entry.2.datum)

theorem datum_string (s : String) : (Value.string s).datum = .string s := rfl

theorem lookup_entryData (o : Object) (key : String) :
    (entryData o).lookup key = (o.get? key).map datum :=
  Keyed.get?_map datum o key

/-- An object without repeated keys is a record with its entries as fields. -/
theorem Exact.record?_datum {o : Object} (h : (Value.object o).Exact) (keys : List String)
    (mayStopEarly : Bool) :
    (Value.object o).datum.record? keys mayStopEarly = some (entryData o) := by
  have hnodup : ((entryData o).map (·.1)).Nodup := by
    have hkeys : ((entryData o).map (·.1)) = o.keys := Keyed.keys_map datum o
    exact hkeys ▸ (distinct_object_iff.1 h.distinct).1
  have hcount : (keys.all fun key => ((entryData o).map (·.1)).count key ≤ 1) = true := by
    simpa using fun key _ => List.nodup_iff_count_le_one.1 hnodup key
  rw [datum_object]
  exact if_pos hcount

end Value

namespace Datum

variable {α : Type}

theorem optional_some (read : Datum → Option α) {datum : Datum} (h : datum ≠ .null) :
    optional read (some datum) = (read datum).map some := by
  cases datum with
  | null => exact absurd rfl h
  | _ => rfl

/-- A field that is written under its key is read as itself, and one that is left out as
absent. -/
theorem optional_map {read : Datum → Option α} {write : α → Value} {field : Option α}
    (hnull : ∀ a, field = some a → (write a).datum ≠ .null)
    (hread : ∀ a, field = some a → read (write a).datum = some a) :
    optional read ((field.map write).map Value.datum) = some field := by
  cases field with
  | none => rfl
  | some a => rw [Option.map_some, Option.map_some, optional_some read (hnull a rfl), hread a rfl,
      Option.map_some]

theorem list?_map {read : Datum → Option α} {write : α → Value} {items : List α}
    (h : ∀ item ∈ items, read (write item).datum = some item) :
    list? read (Value.array (items.map write)).datum = some items := by
  rw [Value.datum_array, list?_eq_some, List.map_map, List.map_map]
  exact List.map_congr_left h

/-- A list of things is never taken for one thing. -/
theorem oneOrMany?_map {one read : Datum → Option α} (hapart : ToldApart one read)
    {write : α → Value} {items : List α} (h : ∀ item ∈ items, read (write item).datum = some item) :
    oneOrMany? one read (Value.array (items.map write)).datum = some items := by
  have hlist := list?_map h
  rw [hapart.oneOrMany?_of_list? (Option.isSome_of_eq_some hlist) (Value.isSound_datum _), hlist]

theorem unsigned?_toNat (n : UInt64) : unsigned? (.int n.toNat) = some n := by
  have hlow : (0 : Int) ≤ n.toNat := Int.natCast_nonneg _
  have hpow : Int.pow 2 64 = 18446744073709551616 := by decide
  have hhigh : (n.toNat : Int) < Int.pow 2 64 := by
    have hlt := n.toNat_lt
    omega
  rw [unsigned?, if_pos ⟨hlow, hhigh⟩, Int.toNat_natCast, UInt64.ofNat_toNat]

theorem signed?_toInt (n : Int64) : signed? (.int n.toInt) = some n := by
  have hlow : -Int.pow 2 63 ≤ n.toInt := Int64.le_toInt n
  have hhigh : n.toInt < Int.pow 2 63 := Int64.toInt_lt n
  rw [signed?, if_pos ⟨hlow, hhigh⟩, Int64.ofInt_toInt]

end Datum

theorem get?_fieldEntry {α : Type} (key other : String) (write : α → Value) (field : Option α) :
    Keyed.get? (fieldEntry key write field) other =
      if key = other then field.map write else none := by
  cases field with
  | none => simp [fieldEntry]
  | some a => simp [fieldEntry, Keyed.single, Keyed.get?_cons]

theorem SortSpec.read?_toObject {sort : SortSpec} (h : (Value.object sort.toObject).Exact) :
    SortSpec.read? (Value.object sort.toObject).datum = some sort := by
  have hfield : Keyed.get? sort.toObject "field" = some (.string sort.field) := rfl
  have hdirection : Keyed.get? sort.toObject "direction" = sort.direction.map .string := by
    simp [toObject, Keyed.single, Keyed.get?_cons, get?_fieldEntry]
  have hread : Datum.optional Datum.text? ((sort.direction.map Value.string).map Value.datum) =
      some sort.direction :=
    Datum.optional_map (fun _ _ => by simp [Value.datum]) fun _ _ => rfl
  rw [SortSpec.read?, h.record?_datum]
  simp only [Option.bind_eq_bind, Option.bind_some, Value.lookup_entryData, hfield, hdirection,
    Option.map_some, Value.datum_string, Datum.required, Datum.text?, hread, Option.pure_def]

theorem readRawOption?_rawOptionObject {option : String × Value}
    (h : (Value.object (rawOptionObject option)).Exact) :
    readRawOption? (Value.object (rawOptionObject option)).datum = some option := by
  have hkey : Keyed.get? (rawOptionObject option) "key" = some (.string option.1) := rfl
  have hvalue : Keyed.get? (rawOptionObject option) "value" = some option.2 := rfl
  have hread := (h.of_get? hvalue).value?_datum
  rw [readRawOption?, h.record?_datum]
  simp [Value.lookup_entryData, hkey, hvalue, hread, Datum.required, Datum.text?,
    Value.datum_string]

theorem Family.read?_name (family : Family) (mayBeEmpty : Bool) :
    Family.read? mayBeEmpty (.string family.name) = some family := by
  cases family <;> rfl

theorem Mode.read?_name (mode : Mode) (mayBeEmpty : Bool) :
    Mode.read? mayBeEmpty (.string mode.name) = some mode := by
  cases mode <;> rfl

namespace ClauseSpec

/-- What is found in a written clause under each key of the schema. -/
theorem get?_toObject (clause : ClauseSpec) :
    Keyed.get? clause.toObject "family" = some (.string clause.family.name) ∧
      Keyed.get? clause.toObject "mode" = some (.string clause.mode.name) ∧
      Keyed.get? clause.toObject "type" = some (.string clause.kind) ∧
      Keyed.get? clause.toObject "field" = clause.field.map .string ∧
      Keyed.get? clause.toObject "value" = clause.value.map id ∧
      Keyed.get? clause.toObject "body" = clause.body.map .object ∧
      Keyed.get? clause.toObject "options" = some (.object clause.options) ∧
      Keyed.get? clause.toObject "nested" = clause.nested.map fun child => .object child.toObject := by
  obtain ⟨family, mode, kind, field, value, body, options, nested⟩ := clause
  have hcarried : ∀ key, Keyed.get? (carriedEntry nested) key =
      if "nested" = key then nested.map fun child => .object child.toObject else none := by
    intro key
    cases nested <;> simp [carriedEntry, Keyed.single, Keyed.get?_cons]
  simp [toObject, ownObject, hcarried, Keyed.get?_append, Keyed.get?_cons, get?_fieldEntry]

/-- A written clause is read as itself, if the spec that it carries is. -/
theorem readWith?_toObject {clause : ClauseSpec} (h : (Value.object clause.toObject).Exact)
    (hnull : clause.value ≠ some .null) {spec? : Datum → Option Spec}
    (hspec : ∀ child, clause.nested = some child →
      spec? (Value.object child.toObject).datum = some child) (inList : Bool) :
    readWith? spec? inList (Value.object clause.toObject).datum = some clause := by
  obtain ⟨hfamily, hmode, hkind, hfield, hvalue, hbody, hoptions, hnested⟩ :=
    get?_toObject clause
  have hfieldRead : Datum.optional Datum.text? ((clause.field.map Value.string).map Value.datum) =
      some clause.field :=
    Datum.optional_map (fun _ _ => by simp [Value.datum]) fun _ _ => rfl
  have hvalueRead : Datum.optional Datum.value? ((clause.value.map id).map Value.datum) =
      some clause.value := by
    refine Datum.optional_map (fun v hv => ?_) fun v hv => ?_
    · intro hdatum
      cases v with
      | null => exact hnull hv
      | _ => simp [Value.datum] at hdatum
    · exact (h.of_get? (hvalue.trans (congrArg _ hv))).value?_datum
  have hbodyRead : Datum.optional Datum.object? ((clause.body.map Value.object).map Value.datum) =
      some clause.body := by
    refine Datum.optional_map (fun _ _ => by simp [Value.datum]) fun o ho => ?_
    exact (h.of_get? (hbody.trans (congrArg _ ho))).object?_datum
  have hoptionsRead := (h.of_get? hoptions).object?_datum
  have hnestedRead : Datum.optional spec?
      ((clause.nested.map fun child => Value.object child.toObject).map Value.datum) =
      some clause.nested :=
    Datum.optional_map (fun _ _ => by simp [Value.datum]) hspec
  rw [readWith?, h.record?_datum]
  simp only [Option.bind_eq_bind, Option.bind_some, Value.lookup_entryData, hfamily, hmode, hkind,
    hfield, hvalue, hbody, hoptions, hnested, Option.map_some, Value.datum_string, Datum.defaulting,
    Datum.required, Datum.text?, Family.read?_name, Mode.read?_name, hfieldRead, hvalueRead,
    hbodyRead, hoptionsRead, hnestedRead, Option.pure_def]
  cases clause
  rfl

end ClauseSpec

theorem clauseValues_eq_map (clauses : List ClauseSpec) :
    clauseValues clauses = clauses.map fun clause => .object clause.toObject := by
  induction clauses with
  | nil => rfl
  | cons clause rest ih => simp [clauseValues, ih]

namespace Spec

/-- What is found in a written spec under each key of the schema. -/
theorem get?_toObject (spec : Spec) :
    Keyed.get? spec.toObject "base" = spec.base.map .object ∧
      Keyed.get? spec.toObject "size" = spec.size.map (fun n => .int n.toNat) ∧
      Keyed.get? spec.toObject "from" = spec.offset.map (fun n => .int n.toNat) ∧
      Keyed.get? spec.toObject "query_minimum_should_match" =
        spec.queryThreshold.map (fun n => .int n.toInt) ∧
      Keyed.get? spec.toObject "filter_minimum_should_match" =
        spec.filterThreshold.map (fun n => .int n.toInt) ∧
      Keyed.get? spec.toObject "sort" =
        some (.array (spec.sort.map fun sort => .object sort.toObject)) ∧
      Keyed.get? spec.toObject "raw" =
        some (.array (spec.raw.map fun option => .object (rawOptionObject option))) ∧
      Keyed.get? spec.toObject "clause" =
        some (.array (spec.clauses.map fun clause => .object clause.toObject)) := by
  obtain ⟨base, size, offset, queryThreshold, filterThreshold, sort, raw, clauses⟩ := spec
  simp [toObject, settingsObject, Keyed.get?_append, Keyed.get?_cons, get?_fieldEntry,
    Keyed.single, clauseValues_eq_map]

/-- A written spec is read as itself, if its clauses are read as themselves. -/
theorem readWith?_toObject {spec : Spec} (h : (Value.object spec.toObject).Exact)
    {clauses? : Datum → Option (List ClauseSpec)}
    (hclauses : clauses? (Value.array
      (spec.clauses.map fun clause => .object clause.toObject)).datum = some spec.clauses) :
    readWith? clauses? (Value.object spec.toObject).datum = some spec := by
  obtain ⟨hbase, hsize, hoffset, hquery, hfilter, hsort, hraw, hlist⟩ := get?_toObject spec
  have hbaseRead : Datum.optional Datum.object? ((spec.base.map Value.object).map Value.datum) =
      some spec.base := by
    refine Datum.optional_map (fun _ _ => by simp [Value.datum]) fun o ho => ?_
    exact (h.of_get? (hbase.trans (congrArg _ ho))).object?_datum
  have hcountRead : ∀ count : Option UInt64, Datum.optional Datum.unsigned?
      ((count.map fun n => Value.int n.toNat).map Value.datum) = some count := fun count =>
    Datum.optional_map (fun _ _ => by simp [Value.datum]) fun n _ => Datum.unsigned?_toNat n
  have hthresholdRead : ∀ count : Option Int64, Datum.optional Datum.signed?
      ((count.map fun n => Value.int n.toInt).map Value.datum) = some count := fun count =>
    Datum.optional_map (fun _ _ => by simp [Value.datum]) fun n _ => Datum.signed?_toInt n
  have hsortRead : Datum.oneOrMany? SortSpec.read? SortSpec.read?
      (Value.array (spec.sort.map fun sort => .object sort.toObject)).datum = some spec.sort := by
    refine Datum.oneOrMany?_map SortSpec.toldApart fun sort hmem => SortSpec.read?_toObject ?_
    exact (h.of_get? hsort).item (List.mem_map_of_mem hmem)
  have hrawRead : Datum.list? readRawOption?
      (Value.array (spec.raw.map fun option => .object (rawOptionObject option))).datum =
        some spec.raw :=
    Datum.list?_map fun option hmem => readRawOption?_rawOptionObject
      ((h.of_get? hraw).item (List.mem_map_of_mem hmem))
  rw [readWith?, h.record?_datum]
  simp only [Option.bind_eq_bind, Option.bind_some, Value.lookup_entryData, hbase, hsize, hoffset,
    hquery, hfilter, hsort, hraw, hlist, hbaseRead, hcountRead, hthresholdRead, Option.map_some,
    Datum.defaulting, hsortRead, hrawRead, hclauses, Option.pure_def]
  cases spec
  rfl

def NoNullValue (spec : Spec) : Prop :=
  ∀ node, spec.Holds node → ∀ clause ∈ node.clauses, clause.value ≠ some .null

/-- A written spec is read as itself wherever it is nested less deep than the reader allows. By
induction over the tree of the spec: what a clause carries is written inside it. -/
theorem readTo?_toObject {spec : Spec} (h : (Value.object spec.toObject).Exact)
    (hnull : spec.NoNullValue) {bound : Nat}
    (hbound : (Value.object spec.toObject).depth < bound) :
    readTo? bound (Value.object spec.toObject).datum = some spec := by
  induction spec using tree_induction generalizing bound with
  | step spec ih =>
    obtain ⟨bound, rfl⟩ : ∃ n, bound = n + 1 := ⟨bound - 1, by omega⟩
    have hlist := (get?_toObject spec).2.2.2.2.2.2.2
    have hdepth := Value.depth_lt_of_get? hlist
    refine readWith?_toObject h (Datum.oneOrMany?_map (ClauseSpec.toldApart (readTo? bound))
      fun clause hclause => ?_)
    have hitem : Value.object clause.toObject ∈
        spec.clauses.map fun clause => Value.object clause.toObject := List.mem_map_of_mem hclause
    have hexact := (h.of_get? hlist).item hitem
    have hself := hnull spec (.self spec) clause hclause
    refine ClauseSpec.readWith?_toObject hexact hself (fun child hchild => ?_) true
    have hnested : Keyed.get? clause.toObject "nested" = some (.object child.toObject) := by
      rw [(ClauseSpec.get?_toObject clause).2.2.2.2.2.2.2, hchild, Option.map_some]
    have hinner := Value.depth_lt_of_get? hnested
    have houter := Value.depth_item_lt hitem
    exact ih clause child hclause hchild (hexact.of_get? hnested)
      (fun node hnode => hnull node (.carried hclause hchild hnode)) (by omega)

/-- A spec is read back from its text, if its numbers are whole ones that fit 64 bits and no
clause declares the value null, which would count as absent. -/
theorem parse_text {spec : Spec} (hdistinct : (Value.object spec.toObject).Distinct)
    (hwhole : (Value.object spec.toObject).Whole) (hnull : spec.NoNullValue)
    (hdepth : (Value.object spec.toObject).depth ≤ Json.maxDepth) :
    Spec.parse .json (spec.text .json) = .ok spec := by
  have hdatum : Json.datum? (spec.text .json) = some (Value.object spec.toObject).datum :=
    Json.datum?_text hwhole hdepth
  have hspec : ofDatum? (Value.object spec.toObject).datum = some spec :=
    readTo?_toObject ⟨hdistinct, hwhole⟩ hnull (Nat.lt_succ_self _)
  simp [parse, hdatum, hspec]

/-- A spec with as many sort fields as a sort field has keys, an object with keys out of order,
characters of all kinds, the greatest count and a null value that is not a clause's. -/
def paired : Spec :=
  { base := some [("b", .object [("y", .int (-1)), ("x", .array [.null])]),
      ("a", .string "\x01\n\x22\\/\x7f\u00e9😀")]
    size := some 18446744073709551615
    queryThreshold := some (-2)
    sort := [⟨"day", some "desc"⟩, ⟨"id", none⟩]
    raw := [("explain", .null)]
    clauses := [{
      kind := "nested"
      options := [("path", .string "c"), ("boost", .int 2)]
      nested := some {
        clauses := [{ family := .filter, mode := .not, kind := "exists", field := some "d" }] } }] }

theorem noNullValue_paired : paired.NoNullValue := by
  intro node hnode clause hclause
  cases hnode with
  | self =>
    obtain rfl := List.mem_singleton.1 hclause
    simp
  | carried howner hchild hnode =>
    obtain rfl := List.mem_singleton.1 howner
    obtain rfl := Option.some.inj hchild
    cases hnode with
    | self =>
      obtain rfl := List.mem_singleton.1 hclause
      simp
    | carried howner hchild =>
      obtain rfl := List.mem_singleton.1 howner
      simp at hchild

theorem parse_text_paired : Spec.parse .json (paired.text .json) = .ok paired := by
  refine parse_text ?_ ?_ noNullValue_paired (by decide)
  · simp [paired, toObject, settingsObject, fieldEntry, clauseValues, ClauseSpec.toObject,
      ClauseSpec.ownObject, carriedEntry, SortSpec.toObject, rawOptionObject, Keyed.single,
      Keyed.keys]
  · simp [paired, toObject, settingsObject, fieldEntry, clauseValues, ClauseSpec.toObject,
      ClauseSpec.ownObject, carriedEntry, SortSpec.toObject, rawOptionObject, Keyed.single]

end Spec

end SearchQuery
