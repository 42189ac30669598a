import SearchQuery.Keyed

/-!
What writing entries leaves to be read. A key that is written twice has the second value
at its first place. After several entries a key has the last value written for it, or the
one it had before. Entries with distinct keys, written into nothing, stay as they are;
repeated keys are settled in order of first occurrence, each with the last of its values.
Entries that have been written can be written once more without a change.
-/
namespace SearchQuery.Keyed

variable {α : Type}

def last? (entries : List (String × α)) (key : String) : Option α :=
  get? entries.reverse key

@[simp] theorem get?_nil (key : String) : get? ([] : Keyed α) key = none := rfl

theorem get?_eq_none_iff {entries : Keyed α} {key : String} :
    entries.get? key = none ↔ key ∉ entries.keys := by
  rw [← contains_iff_mem_keys, contains, Bool.not_eq_true, Option.isSome_eq_false_iff,
    Option.isNone_iff_eq_none]

theorem last?_eq_none {entries : Keyed α} {key : String} (h : key ∉ entries.keys) :
    last? entries key = none := by
  rw [last?, get?_eq_none_iff, keys, List.map_reverse, List.mem_reverse]
  exact h

theorem get?_append (front back : Keyed α) (key : String) :
    get? (front ++ back) key = (get? front key).or (get? back key) := by
  induction front with
  | nil => simp
  | cons entry rest ih =>
    by_cases h : entry.1 = key <;> simp [get?_cons, h, ih]

theorem get?_insert (entries : Keyed α) (key other : String) (value : α) :
    (entries.insert key value).get? other =
      if key = other then some value else entries.get? other := by
  by_cases h : key = other
  · subst h
    simp [get?_insert_self]
  · rw [get?_insert_of_ne entries value (fun e => h e.symm), if_neg h]

theorem insert_insert (entries : Keyed α) (key : String) (first second : α) :
    (entries.insert key first).insert key second = entries.insert key second := by
  induction entries with
  | nil => simp [insert]
  | cons entry rest ih =>
    by_cases h : entry.1 = key <;> simp [insert, h, ih]

theorem last?_cons (entry : String × α) (rest : List (String × α)) (key : String) :
    last? (entry :: rest) key =
      (last? rest key).or (if entry.1 = key then some entry.2 else none) := by
  simp [last?, get?_append, get?_cons]

theorem last?_filter (entries : List (String × α)) (key : String) :
    last? (entries.filter (·.1 = key)) key = last? entries key := by
  induction entries with
  | nil => rfl
  | cons entry rest ih =>
    by_cases h : entry.1 = key
    · rw [List.filter_cons_of_pos (by simpa using h), last?_cons, last?_cons, ih]
    · rw [List.filter_cons_of_neg (by simpa using h), last?_cons, ih, if_neg h, Option.or_none]

theorem extend_cons (entries : Keyed α) (entry : String × α) (rest : List (String × α)) :
    entries.extend (entry :: rest) = (entries.insert entry.1 entry.2).extend rest := rfl

theorem extend_append (entries : Keyed α) (front back : List (String × α)) :
    entries.extend (front ++ back) = (entries.extend front).extend back :=
  List.foldl_append

/-- Entries written one after the other leave each key with the last of its values. -/
theorem get?_extend (entries more : Keyed α) (key : String) :
    (entries.extend more).get? key = (last? more key).or (entries.get? key) := by
  induction more generalizing entries with
  | nil => simp [extend, last?]
  | cons entry rest ih =>
    rw [extend_cons, ih, last?_cons, get?_insert]
    by_cases h : entry.1 = key <;> simp [h]

theorem insert_of_new {entries : Keyed α} {key : String} (value : α)
    (h : key ∉ entries.keys) : entries.insert key value = entries ++ [(key, value)] := by
  induction entries with
  | nil => rfl
  | cons entry rest ih =>
    simp only [keys, List.map_cons, List.mem_cons, not_or] at h
    simp [insert, Ne.symm h.1, ih h.2]

theorem extend_of_nodup {entries more : Keyed α} (h : (keys (entries ++ more)).Nodup) :
    entries.extend more = entries ++ more := by
  induction more generalizing entries with
  | nil => simp [extend]
  | cons entry rest ih =>
    have hnew : entry.1 ∉ entries.keys := by
      simp only [keys, List.map_append, List.map_cons] at h
      intro hmem
      exact (List.nodup_append.1 h).2.2 _ hmem _ List.mem_cons_self rfl
    rw [extend_cons, insert_of_new entry.2 hnew, ih (by simpa using h), List.append_assoc,
      List.singleton_append]

/-- Entries with distinct keys are left as they are when they are written into nothing. -/
theorem nil_extend {more : Keyed α} (h : more.keys.Nodup) : extend [] more = more :=
  extend_of_nodup h

/-- Entries with distinct keys are known from the order of the keys and what they hold. -/
theorem eq_of_get? {entries others : Keyed α} (hkeys : entries.keys = others.keys)
    (hnodup : entries.keys.Nodup)
    (hget : ∀ key, entries.get? key = others.get? key) : entries = others := by
  induction entries generalizing others with
  | nil =>
    have hnone : others.keys = [] := hkeys.symm
    exact (List.map_eq_nil_iff.1 hnone).symm
  | cons entry rest ih =>
    obtain ⟨key, value⟩ := entry
    match others with
    | [] => simp [keys] at hkeys
    | (first, found) :: others =>
      obtain ⟨rfl, hrest⟩ := List.cons.inj hkeys
      obtain ⟨hnew, hnodup⟩ := List.nodup_cons.1 hnodup
      have hvalue := hget key
      simp only [get?_cons, if_true, Option.some.injEq] at hvalue
      subst hvalue
      rw [ih hrest hnodup]
      intro other
      by_cases h : key = other
      · subst h
        have hother : key ∉ keys others := fun hmem => hnew (hrest.symm ▸ hmem)
        rw [get?_eq_none_iff.2 hnew, get?_eq_none_iff.2 hother]
      · have hother := hget other
        rwa [get?_cons, get?_cons, if_neg h, if_neg h] at hother

def newKeys (present names : List String) : List String :=
  (names.filter fun name => name ∉ present).eraseDups

theorem keys_extend (entries more : Keyed α) :
    (entries.extend more).keys = entries.keys ++ newKeys entries.keys more.keys := by
  unfold newKeys
  induction more generalizing entries with
  | nil => simp [extend, keys]
  | cons entry rest ih =>
    have hkeys : keys (entry :: rest) = entry.1 :: keys rest := rfl
    rw [extend_cons, ih, keys_insert, hkeys]
    by_cases h : entry.1 ∈ entries.keys
    · simp [h]
    · rw [if_neg h, List.filter_cons_of_pos (by simpa using h), List.eraseDups_cons,
        List.filter_filter, List.append_assoc, List.singleton_append]
      congr 3
      apply List.filter_congr
      intro key _
      by_cases hkey : key = entry.1 <;> simp [hkey]

/-- The keys of entries in order of first occurrence, each with the last of its values. -/
def settled (entries : List (String × α)) : Keyed α :=
  (keys entries).eraseDups.filterMap fun key =>
    (last? entries key).map fun value => (key, value)

theorem get?_filterMap (names : List String) (f : String → Option α) (key : String) :
    get? (names.filterMap fun name => (f name).map fun value => (name, value)) key =
      if key ∈ names then f key else none := by
  induction names with
  | nil => rfl
  | cons name rest ih =>
    by_cases h : name = key
    · subst h
      cases hname : f name <;> simp [hname, get?_cons, ih]
    · cases hname : f name <;> simp [hname, get?_cons, ih, h, Ne.symm h]

theorem keys_filterMap {names : List String} {f : String → Option α}
    (h : ∀ name ∈ names, (f name).isSome) :
    keys (names.filterMap fun name => (f name).map fun value => (name, value)) = names := by
  induction names with
  | nil => rfl
  | cons name rest ih =>
    obtain ⟨value, hvalue⟩ := Option.isSome_iff_exists.1 (h name List.mem_cons_self)
    have hrest := ih fun other hother => h other (List.mem_cons_of_mem _ hother)
    rw [List.filterMap_cons, hvalue]
    simp only [keys, Option.map_some, List.map_cons] at hrest ⊢
    rw [hrest]

/-- Names without repetition are new exactly if they are not there. -/
theorem newKeys_of_nodup {names : List String} (h : names.Nodup) (present : List String) :
    newKeys present names = names.filter fun name => name ∉ present := by
  have hself : ∀ some : List String, some.Nodup → some.eraseDups = some := by
    intro some hsome
    induction some with
    | nil => rfl
    | cons name rest ih =>
      obtain ⟨hnew, hrest⟩ := List.nodup_cons.1 hsome
      have hothers : rest.filter (fun other => !other == name) = rest := by
        refine List.filter_eq_self.2 fun other hother => ?_
        simpa using fun heq : other = name => hnew (heq ▸ hother)
      rw [List.eraseDups_cons, hothers, ih hrest]
  exact hself _ (h.sublist List.filter_sublist)

theorem isSome_last? {entries : List (String × α)} {key : String} (h : key ∈ keys entries) :
    (last? entries key).isSome := by
  rw [Option.isSome_iff_ne_none]
  intro hnone
  rw [last?, get?_eq_none_iff, keys, List.map_reverse, List.mem_reverse] at hnone
  exact hnone h

theorem distinct_eq_settled (entries : List (String × α)) : distinct entries = settled entries := by
  have hkeys : (settled entries).keys = (keys entries).eraseDups :=
    keys_filterMap fun key hkey => isSome_last? (List.mem_eraseDups.1 hkey)
  have hdistinct : (distinct entries).keys = (keys entries).eraseDups := by
    rw [distinct, keys_extend, newKeys, List.filter_eq_self.2 (by simp [keys])]
    rfl
  refine eq_of_get? (hdistinct.trans hkeys.symm) (nodup_keys_distinct entries) ?_
  intro key
  rw [distinct, get?_extend, settled, get?_filterMap]
  by_cases h : key ∈ keys entries
  · simp [h]
  · simp [h, last?_eq_none h]

/-- Entries with distinct keys are settled as they are. -/
theorem settled_of_nodup {entries : Keyed α} (h : entries.keys.Nodup) :
    settled entries = entries := by
  rw [← distinct_eq_settled]
  exact nil_extend h

/-- Writing the value that a key has changes nothing. -/
theorem insert_of_get? {entries : Keyed α} {key : String} {value : α}
    (h : entries.get? key = some value) : entries.insert key value = entries := by
  induction entries with
  | nil => simp at h
  | cons entry rest ih =>
    obtain ⟨first, present⟩ := entry
    rw [get?_cons] at h
    by_cases hkey : first = key
    · rw [if_pos hkey, Option.some.injEq] at h
      simp [insert, hkey, h.symm]
    · rw [if_neg hkey] at h
      simp [insert, hkey, ih h]

theorem mem_keys_insert {entries : Keyed α} {key : String} (h : key ∈ entries.keys)
    (other : String) (value : α) : key ∈ (entries.insert other value).keys := by
  rw [keys_insert]
  split
  · exact h
  · exact List.mem_append_left _ h

/-- A key that is there can be written before another one or after it. -/
theorem insert_comm {entries : Keyed α} {key other : String} (hne : key ≠ other)
    (h : key ∈ entries.keys) (first second : α) :
    (entries.insert key first).insert other second =
      (entries.insert other second).insert key first := by
  induction entries with
  | nil => simp [keys] at h
  | cons entry rest ih =>
    by_cases hkey : entry.1 = key
    · simp [insert, hkey, hne]
    · have hrest : key ∈ keys rest := by
        simpa [keys, Ne.symm hkey] using h
      by_cases hother : entry.1 = other
      · simp [insert, hother, hne.symm]
      · simp [insert, hkey, hother, ih hrest]

/-- A key that is there can be written before several others or after them. -/
theorem extend_insert_comm {entries more : Keyed α} {key : String} (h : key ∈ entries.keys)
    (hmore : key ∉ more.keys) (value : α) :
    (entries.extend more).insert key value = (entries.insert key value).extend more := by
  induction more generalizing entries with
  | nil => rfl
  | cons entry rest ih =>
    obtain ⟨hne, hrest⟩ : key ≠ entry.1 ∧ key ∉ keys rest := by
      simpa [keys] using hmore
    rw [extend_cons, extend_cons, ih (mem_keys_insert h _ _) hrest, insert_comm hne h]

/-- To write entries with distinct keys, one of them changed, is to write them and then the
change. -/
theorem extend_insert {more : Keyed α} (hmore : more.keys.Nodup) (entries : Keyed α)
    (key : String) (value : α) :
    entries.extend (more.insert key value) = (entries.extend more).insert key value := by
  induction more generalizing entries with
  | nil => rfl
  | cons entry rest ih =>
    obtain ⟨hnew, hrest⟩ := List.nodup_cons.1 hmore
    by_cases hkey : entry.1 = key
    · have hthere : key ∈ (entries.insert key entry.2).keys := by
        rw [keys_insert]
        split
        · assumption
        · simp
      rw [insert, if_pos hkey, extend_cons, extend_cons, hkey,
        extend_insert_comm hthere (hkey ▸ hnew), insert_insert]
    · rw [insert, if_neg hkey, extend_cons, extend_cons, ih hrest]

/-- Entries may be brought together before they are written. -/
theorem extend_distinct (entries : Keyed α) (more : List (String × α)) :
    entries.extend (distinct more) = entries.extend more := by
  have hfold : ∀ acc : Keyed α, acc.keys.Nodup →
      entries.extend (acc.extend more) = (entries.extend acc).extend more := by
    induction more with
    | nil => exact fun _ _ => rfl
    | cons entry rest ih =>
      intro acc hacc
      rw [extend_cons, extend_cons, ih _ (nodup_keys_insert hacc _ _), extend_insert hacc]
  exact hfold [] List.nodup_nil

/-- Writing a key that is there is undone by writing it again. -/
theorem insert_extend {entries : Keyed α} {more : List (String × α)} {key : String}
    (h : key ∈ entries.keys) (hmore : key ∈ keys more) (value : α) :
    (entries.insert key value).extend more = entries.extend more := by
  induction more generalizing entries with
  | nil => simp [keys] at hmore
  | cons entry rest ih =>
    rw [extend_cons, extend_cons]
    by_cases hkey : entry.1 = key
    · rw [hkey, insert_insert]
    · have hrest : key ∈ keys rest := by
        simpa [keys, Ne.symm hkey] using hmore
      rw [insert_comm (Ne.symm hkey) h, ih (mem_keys_insert h _ _) hrest]

/-- Entries whose last values are there already change nothing, whatever they write on the
way. -/
theorem extend_of_last? {entries : Keyed α} {more : List (String × α)}
    (h : ∀ key ∈ keys more, entries.get? key = last? more key) :
    entries.extend more = entries := by
  induction more with
  | nil => rfl
  | cons entry rest ih =>
    have hrest : ∀ key ∈ keys rest, entries.get? key = last? rest key := by
      intro key hkey
      obtain ⟨value, hvalue⟩ := Option.isSome_iff_exists.1 (isSome_last? hkey)
      rw [h key (List.mem_cons_of_mem _ hkey), last?_cons, hvalue, Option.some_or]
    have hfirst := h entry.1 List.mem_cons_self
    rw [last?_cons, if_pos rfl] at hfirst
    rw [extend_cons]
    by_cases hagain : entry.1 ∈ keys rest
    · have hthere : entry.1 ∈ entries.keys := by
        rw [← contains_iff_mem_keys, contains, hrest _ hagain]
        exact isSome_last? hagain
      rw [insert_extend hthere hagain, ih hrest]
    · rw [last?_eq_none hagain, Option.none_or] at hfirst
      rw [insert_of_get? hfirst, ih hrest]

/-- Entries that were written can be written again without a change. -/
theorem extend_extend (entries : Keyed α) (more : List (String × α)) :
    (entries.extend more).extend more = entries.extend more := by
  refine extend_of_last? fun key hkey => ?_
  obtain ⟨value, hvalue⟩ := Option.isSome_iff_exists.1 (isSome_last? hkey)
  rw [get?_extend, hvalue, Option.some_or]

end SearchQuery.Keyed
