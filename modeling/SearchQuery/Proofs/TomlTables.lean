import SearchQuery.Proofs.TomlReading

/-!
From a TOML text to a datum. An assignment to a new key of one part adds an entry to a table, so
entries with distinct keys build the table that they are, and the datum of a table has its keys
in ascending order. Hence the text of a root table is read as the datum of the table with all
its keys sorted.
-/
namespace SearchQuery.Toml

theorem assign?_key {entries : Entries} {key : String} (h : key ∉ entries.keys) (datum : Datum) :
    assign? [key] datum .defined entries = some (entries.insert key (.leaf datum)) := by
  have hnew : Keyed.contains entries key = false := by
    rw [Bool.eq_false_iff, ne_eq, Keyed.contains_iff_mem_keys]
    exact h
  simp [assign?, changeAt?, hnew]

/-- Assignments to distinct new keys add their entries one after the other. -/
theorem foldlM_assign? {entries : Keyed Datum} {start : Entries}
    (h : (start.keys ++ entries.keys).Nodup) :
    entries.foldlM (fun table entry => assign? [entry.1] entry.2 .defined table) start =
      some (start.extend (entries.map fun entry => (entry.1, .leaf entry.2))) := by
  induction entries generalizing start with
  | nil => rfl
  | cons entry rest ih =>
    have hnew : entry.1 ∉ start.keys := fun hmem =>
      (List.nodup_append.1 h).2.2 _ hmem _ List.mem_cons_self rfl
    have hkeys : (Keyed.keys (start.insert entry.1 (.leaf entry.2)) ++ Keyed.keys rest).Nodup := by
      rw [Keyed.keys_insert, if_neg hnew, List.append_assoc]
      exact h
    rw [List.foldlM_cons, assign?_key hnew]
    exact ih hkeys

theorem entriesData_leaves (entries : Keyed Datum) :
    entriesData (entries.map fun entry => (entry.1, .leaf entry.2)) = entries := by
  induction entries with
  | nil => rfl
  | cons entry rest ih => simp [entriesData, Node.datum, ih]

def sortedData (o : Object) : Keyed Datum := o.map fun entry => (entry.1, entry.2.keySorted.datum)

theorem keys_sortedData (o : Object) : Keyed.keys (sortedData o) = o.keys :=
  Keyed.keys_map (fun value : Value => value.keySorted.datum) o

theorem foldlM_assign?_sortedData {o : Object} (h : o.keys.Nodup) :
    (sortedData o).foldlM (fun table entry => assign? [entry.1] entry.2 .defined table) [] =
      some ((sortedData o).map fun entry => (entry.1, .leaf entry.2)) := by
  have hkeys : (Keyed.keys ([] : Entries) ++ Keyed.keys (sortedData o)).Nodup := by
    rwa [keys_sortedData]
  rw [foldlM_assign? hkeys, Keyed.nil_extend (by rwa [Keyed.keys_map])]

/-- The table of an object's entries has the datum of the object with sorted keys. -/
theorem tableDatum_leaves (o : Object) :
    tableDatum ((sortedData o).map fun entry => (entry.1, .leaf entry.2)) =
      (Value.object o).keySorted.datum := by
  rw [tableDatum, entriesData_leaves, Value.keySorted_object, Value.datum_object,
    Object.keySorted_eq, ← Keyed.sorted_map, List.map_map]
  rfl

theorem itemsData?_map {values : List Value}
    (h : ∀ value ∈ values, (itemOf value).datum? = some value.keySorted.datum) :
    itemsData? (values.map itemOf) = some (values.map fun value => value.keySorted.datum) := by
  induction values with
  | nil => rfl
  | cons value rest ih =>
    rw [List.forall_mem_cons] at h
    simp [itemsData?, h.1, ih h.2]

theorem assignmentsData?_map {o : Object}
    (h : ∀ entry ∈ o, (itemOf entry.2).datum? = some entry.2.keySorted.datum) :
    assignmentsData? (o.map writtenEntry) =
      some ((sortedData o).map fun entry => ([entry.1], entry.2)) := by
  induction o with
  | nil => rfl
  | cons entry rest ih =>
    rw [List.forall_mem_cons] at h
    simp only [sortedData, List.map_map] at ih
    simp [assignmentsData?, writtenEntry, sortedData, h.1, ih h.2]

/-- The item of a value builds the datum of the value with sorted keys. -/
theorem datum?_itemOf {value : Value} (h : value.Distinct) :
    (itemOf value).datum? = some value.keySorted.datum := by
  induction value using Value.parts_induction with
  | array values ih =>
    have hitems := itemsData?_map fun value hvalue =>
      ih value hvalue (Value.distinct_array_iff.1 h value hvalue)
    rw [itemOf_array, Item.datum?, hitems, Value.keySorted_array, Value.datum_array,
      List.map_map]
    rfl
  | object o ih =>
    obtain ⟨hkeys, hvalues⟩ := Value.distinct_object_iff.1 h
    have hentries := assignmentsData?_map fun entry hentry =>
      ih entry hentry (hvalues entry hentry)
    rw [itemOf_object, Item.datum?, hentries]
    simp [List.foldlM_map, foldlM_assign?_sortedData hkeys, tableDatum_leaves]
  | _ => rfl

def IsBareKey (key : String) : Prop := key ≠ "" ∧ key.toList.all isKeyChar = true

instance (key : String) : Decidable (IsBareKey key) := inferInstanceAs (Decidable (_ ∧ _))

theorem ne_of_isKeyChar {c d : Char} (h : isKeyChar c = true) (hd : isKeyChar d = false) :
    c ≠ d := by
  rintro rfl
  simp [h] at hd

theorem IsBareKey.exists_cons {key : String} (h : IsBareKey key) :
    ∃ c tail, key.toList = c :: tail ∧ isKeyChar c = true := by
  obtain ⟨hsome, hchars⟩ := h
  obtain ⟨c, tail, hcons⟩ := List.exists_cons_of_ne_nil (String.toList_eq_nil_iff.not.2 hsome)
  exact ⟨c, tail, hcons, List.all_eq_true.1 hchars c (by simp [hcons])⟩

theorem IsBareKey.key?_append {key : String} (h : IsBareKey key) (rest : List Char) :
    key? (key.toList ++ ' ' :: rest) = some (key, ' ' :: rest) := by
  have hspan : (key.toList ++ ' ' :: rest).span isKeyChar = (key.toList, ' ' :: rest) :=
    span_append_of_stop (List.all_eq_true.1 h.2) (by simp [isKeyChar])
  obtain ⟨c, tail, hcons, hc⟩ := h.exists_cons
  have hquote : c ≠ '\x22' := ne_of_isKeyChar hc (by decide)
  have hother : c ≠ '\x27' := ne_of_isKeyChar hc (by decide)
  have hkey : String.ofList (c :: tail) = key := by rw [← hcons, String.ofList_toList]
  rw [hcons, List.cons_append] at hspan ⊢
  rw [key?.eq_3 _ (fun _ h => hquote (List.cons.inj h).1) fun _ h => hother (List.cons.inj h).1,
    hspan]
  simp [hkey]

structure FitsLine (entry : String × Value) : Prop where
  key : IsBareKey entry.1
  whole : entry.2.Whole
  nullFree : entry.2.NullFree
  depth : entry.2.depth ≤ maxDepth

def assignmentOf (entry : String × Value) : Statement := .assign [entry.1] (itemOf entry.2)

namespace FitsLine

variable {entry : String × Value} (h : FitsLine entry)

include h

theorem exists_cons : ∃ c tail, line entry = c :: tail ∧ isKeyChar c = true := by
  obtain ⟨c, tail, hcons, hc⟩ := h.key.exists_cons
  exact ⟨c, tail ++ ' ' :: '=' :: ' ' :: chars entry.2 ++ ['\n'], by simp [line, hcons], hc⟩

/-- A line is read as the assignment that it was written for, up to its end. -/
theorem assignment?_line (more : List Char) :
    assignment? (line entry ++ more) = some (assignmentOf entry, '\n' :: more) := by
  have hline : line entry ++ more =
      entry.1.toList ++ ' ' :: '=' :: ' ' :: (chars entry.2 ++ '\n' :: more) := by
    simp [line]
  have hpath := path?_of_key? (h.key.key?_append ('=' :: ' ' :: (chars entry.2 ++ '\n' :: more)))
    (by simp [skipBlanks, isBlank])
  have hequals : skipBlanks (' ' :: '=' :: ' ' :: (chars entry.2 ++ '\n' :: more)) =
      '=' :: ' ' :: (chars entry.2 ++ '\n' :: more) := by
    simp [skipBlanks, isBlank]
  obtain ⟨c, tail, htext, hskip, -⟩ :=
    exists_start (h.whole entry.2 .here) (h.nullFree entry.2 .here)
  have hblanks : skipBlanks (' ' :: (chars entry.2 ++ '\n' :: more)) =
      chars entry.2 ++ '\n' :: more := by
    simp only [List.mem_cons, List.not_mem_nil, or_false, not_or] at hskip
    simp [skipBlanks, htext, isBlank, hskip]
  have hvalue := readsBack_of_whole h.whole h.nullFree
    ((' ' :: (chars entry.2 ++ '\n' :: more)).length + 1) 0 ('\n' :: more)
    (by simp; omega) (by simpa using h.depth) (follows_cons (by simp) more)
  rw [hline]
  simp only [assignment?, hpath, Option.bind_eq_bind, Option.bind_some, hequals, hblanks, hvalue,
    Option.pure_def, assignmentOf]

theorem statement?_line (more : List Char) :
    statement? (line entry ++ more) = some (assignmentOf entry, '\n' :: more) := by
  rw [← h.assignment?_line more]
  obtain ⟨c, tail, hcons, hc⟩ := h.exists_cons
  have hbracket : c ≠ '[' := ne_of_isKeyChar hc (by decide)
  simp [hcons, statement?, hbracket]

/-- A line in front of other ones is their first statement. -/
theorem statements?_line {more : List Char} {statements : List Statement} {bound : Nat}
    (hmore : statements? bound more = some statements) :
    statements? (bound + 1) (line entry ++ more) = some (assignmentOf entry :: statements) := by
  have hstatement := h.statement?_line more
  have hend : lineEnd? ('\n' :: more) = some more := by simp [lineEnd?, skipBlanks, isBlank]
  obtain ⟨c, tail, hcons, hc⟩ := h.exists_cons
  have hne : ∀ d, isKeyChar d = false → c ≠ d := fun d => ne_of_isKeyChar hc
  have hblank : skipBlanks (c :: (tail ++ more)) = c :: (tail ++ more) := by
    simp [skipBlanks, isBlank, hne ' ' (by decide), hne '\t' (by decide)]
  have hstarts : startsStatement (c :: (tail ++ more)) = true := by
    simp [startsStatement, hne '#' (by decide), hne '\n' (by decide), hne '\r' (by decide)]
  rw [hcons, List.cons_append] at hstatement ⊢
  simp [statements?, hblank, hstarts, hstatement, hend, hmore]

end FitsLine

theorem statements?_lines {o : Object} (h : ∀ entry ∈ o, FitsLine entry) {bound : Nat}
    (hbound : (o.flatMap line).length < bound) :
    statements? bound (o.flatMap line) = some (o.map assignmentOf) := by
  induction o generalizing bound with
  | nil =>
    obtain ⟨bound, rfl⟩ : ∃ n, bound = n + 1 := ⟨bound - 1, by omega⟩
    rfl
  | cons entry rest ih =>
    rw [List.forall_mem_cons] at h
    obtain ⟨bound, rfl⟩ : ∃ n, bound = n + 1 := ⟨bound - 1, by omega⟩
    have hsome : 0 < (line entry).length := by
      simp only [line, List.length_append, List.length_cons]
      omega
    rw [List.flatMap_cons, List.length_append] at hbound
    rw [List.flatMap_cons, List.map_cons]
    exact h.1.statements?_line (ih h.2 (by omega))

/-- The statements of an object build the root table with its entries. -/
theorem foldlM_step? {o : Object} (hvalues : ∀ entry ∈ o, entry.2.Distinct) (start : Entries) :
    (o.map assignmentOf).foldlM Building.step? ⟨start, []⟩ =
      ((sortedData o).foldlM (fun table entry => assign? [entry.1] entry.2 .defined table)
        start).map (⟨·, []⟩) := by
  induction o generalizing start with
  | nil => rfl
  | cons entry rest ih =>
    rw [List.forall_mem_cons] at hvalues
    have hstep : Building.step? ⟨start, []⟩ (assignmentOf entry) =
        (assign? [entry.1] entry.2.keySorted.datum .defined start).map (⟨·, []⟩) := by
      cases hroot : assign? [entry.1] entry.2.keySorted.datum .defined start <;>
        simp [Building.step?, assignmentOf, datum?_itemOf hvalues.1, changeAt?, hroot]
    have hdata : sortedData (entry :: rest) =
        (entry.1, entry.2.keySorted.datum) :: sortedData rest := rfl
    rw [List.map_cons, List.foldlM_cons, hstep, hdata, List.foldlM_cons]
    cases assign? [entry.1] entry.2.keySorted.datum .defined start with
    | none => rfl
    | some root => exact ih hvalues.2 root

/-- The text of a root table is read as the datum of the table with all its keys sorted. -/
theorem datum?_text {o : Object} (hdistinct : (Value.object o).Distinct)
    (h : ∀ entry ∈ o, FitsLine entry) :
    datum? (text o) = some (Value.object o).keySorted.datum := by
  obtain ⟨hkeys, hvalues⟩ := Value.distinct_object_iff.1 hdistinct
  have hmark : afterMark (o.flatMap line) = o.flatMap line := by
    cases o with
    | nil => rfl
    | cons entry rest =>
      obtain ⟨c, tail, hcons, hc⟩ := (h entry List.mem_cons_self).exists_cons
      have hother : c ≠ '\ufeff' := ne_of_isKeyChar hc (by decide)
      simp [hcons, afterMark, hother]
  have hstatements : statements? ((o.flatMap line).length + 1) (o.flatMap line) =
      some (o.map assignmentOf) := statements?_lines h (Nat.lt_succ_self _)
  have hsteps := foldlM_step? hvalues []
  rw [foldlM_assign?_sortedData hkeys, Option.map_some] at hsteps
  simp only [datum?, text, String.toList_ofList, hmark, hstatements, Option.bind_eq_bind,
    Option.bind_some, hsteps, tableDatum_leaves, Option.pure_def]

end SearchQuery.Toml
