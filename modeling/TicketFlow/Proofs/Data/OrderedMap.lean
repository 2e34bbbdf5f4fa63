import TicketFlow.Data.OrderedMap

namespace TicketFlow.OrderedMap

/-! Look-ups after an operation, and maps in which no key occurs twice.

In a map with distinct keys an entry is the same thing as a look-up, so
properties of all entries can be read off the view.
-/

universe u v

variable {κ : Type u} {α : Type v} [DecidableEq κ]
  {map : OrderedMap κ α} {key other : κ} {value : α}

theorem get?_insert :
    get? (insert map key value) other =
      if key = other then some value else get? map other := by
  by_cases same : key = other
  · subst same
    simp
  · simp [get?_insert_of_ne, same]

theorem get?_erase :
    get? (erase map key) other = if key = other then none else get? map other := by
  by_cases same : key = other
  · subst same
    simp
  · simp [get?_erase_of_ne, same]

theorem get?_modify {f : α → α} :
    get? (modify map key f) other = if key = other then
      (get? map other).map f else get? map other := by
  by_cases same : key = other
  · subst same
    simp
  · simp [get?_modify_of_ne, same]

theorem mem_of_get? (found : get? map key = some value) : (key, value) ∈ map := by
  induction map with
  | nil => simp at found
  | cons entry rest ih =>
      obtain ⟨present, stored⟩ := entry
      by_cases same : present = key
      · simp only [get?, same, if_true, Option.some.injEq] at found
        simp [same, found]
      · simp only [get?, same, if_false] at found
        exact List.mem_cons_of_mem _ (ih found)

theorem get?_filter (keep : κ → Bool) :
    get? (map.filter fun entry => keep entry.1) key =
      if keep key then get? map key else none := by
  induction map with
  | nil => simp
  | cons entry rest ih =>
      by_cases same : entry.1 = key
      · cases kept : keep key <;> simp [get?, same, kept, ih]
      · cases kept : keep entry.1 <;> simp [get?, same, kept, ih]

theorem get?_append {others : OrderedMap κ α} :
    get? (map ++ others) key = (get? map key).or (get? others key) := by
  induction map with
  | nil => rfl
  | cons entry rest ih => by_cases same : entry.1 = key <;> simp [get?, same, ih]

/-- In a map with distinct keys every entry is found under its key. -/
theorem mem_iff_get? (distinct : Distinct map) :
    (key, value) ∈ map ↔ get? map key = some value := by
  refine ⟨fun member => ?_, mem_of_get?⟩
  induction map with
  | nil => simp at member
  | cons entry rest ih =>
      obtain ⟨present, stored⟩ := entry
      obtain ⟨fresh, restDistinct⟩ := List.nodup_cons.mp distinct
      rcases List.mem_cons.mp member with same | later
      · simp only [Prod.mk.injEq] at same
        simp [get?, same.1, same.2]
      · have apart : present ≠ key := by
          rintro rfl
          exact fresh (List.mem_map.mpr ⟨_, later, rfl⟩)
        simp only [get?, apart, if_false]
        exact ih restDistinct later

/-- Where all keys are distinct, the order of the entries does not matter to a look-up. -/
theorem get?_reverse (distinct : Distinct map) : get? map.reverse key = get? map key := by
  have reversed : Distinct map.reverse := by
    rw [Distinct, keys, List.map_reverse]
    exact (List.reverse_perm _).nodup_iff.mpr distinct
  refine Option.ext fun value => ?_
  rw [← mem_iff_get? reversed, ← mem_iff_get? distinct, List.mem_reverse]

theorem keys_modify {f : α → α} : keys (modify map key f) = keys map := by
  induction map with
  | nil => rfl
  | cons entry rest ih =>
      simp only [keys] at ih
      by_cases same : entry.1 = key <;> simp [modify, keys, same, ih]

theorem mem_keys_insert :
    other ∈ keys (insert map key value) ↔ other = key ∨ other ∈ keys map := by
  induction map with
  | nil => simp [insert, keys]
  | cons entry rest ih =>
      simp only [keys] at ih
      by_cases same : entry.1 = key
      · simp [insert, keys, same]
      · simp only [insert, same, if_false, keys, List.map_cons, List.mem_cons, ih]
        exact or_left_comm

theorem eq_or_mem_of_mem_insert {entry : κ × α} (member : entry ∈ insert map key value) :
    entry = (key, value) ∨ entry ∈ map := by
  induction map with
  | nil => exact .inl (List.mem_singleton.mp member)
  | cons first rest ih =>
      unfold insert at member
      split at member
      · rcases List.mem_cons.mp member with same | later
        · exact .inl same
        · exact .inr (List.mem_cons_of_mem _ later)
      · rcases List.mem_cons.mp member with same | later
        · exact .inr (List.mem_cons.mpr (.inl same))
        · exact (ih later).imp_right (List.mem_cons_of_mem _)

theorem erase_eq_filter : erase map key = map.filter fun entry => entry.1 ≠ key := by
  induction map with
  | nil => rfl
  | cons entry rest ih => by_cases same : entry.1 = key <;> simp [erase, same, ih]

theorem mem_of_mem_erase {entry : κ × α} (member : entry ∈ erase map key) :
    entry ∈ map := by
  induction map with
  | nil => simp [erase] at member
  | cons first rest ih =>
      unfold erase at member
      split at member
      · exact List.mem_cons_of_mem _ (ih member)
      · rcases List.mem_cons.mp member with same | later
        · exact List.mem_cons.mpr (.inl same)
        · exact List.mem_cons_of_mem _ (ih later)

theorem Distinct.modify {f : α → α} (distinct : Distinct map) :
    Distinct (modify map key f) := by
  rw [Distinct, keys_modify]
  exact distinct

theorem Distinct.insert (distinct : Distinct map) : Distinct (insert map key value) := by
  induction map with
  | nil => simp [Distinct, keys, OrderedMap.insert]
  | cons entry rest ih =>
      obtain ⟨fresh, restDistinct⟩ := List.nodup_cons.mp distinct
      by_cases same : entry.1 = key
      · simp only [OrderedMap.insert, same, if_true, Distinct, keys, List.map_cons,
          List.nodup_cons]
        exact ⟨same ▸ fresh, restDistinct⟩
      · simp only [OrderedMap.insert, same, if_false, Distinct, keys, List.map_cons,
          List.nodup_cons]
        refine ⟨fun member => ?_, ih restDistinct⟩
        rcases mem_keys_insert.mp member with found | found
        · exact same found
        · exact fresh found

theorem keys_erase_sublist : (keys (erase map key)).Sublist (keys map) := by
  induction map with
  | nil => exact .refl _
  | cons entry rest ih =>
      simp only [keys] at ih
      by_cases same : entry.1 = key
      · simpa only [erase, same, if_true, keys, List.map_cons] using ih.cons key
      · simpa only [erase, same, if_false, keys, List.map_cons] using ih.cons_cons entry.1

section Values

universe w

variable {β : Type w} {f : α → β}

theorem get?_mapValues : get? (mapValues f map) key = (get? map key).map f := by
  induction map with
  | nil => rfl
  | cons entry rest ih =>
      simp only [mapValues] at ih
      by_cases same : entry.1 = key <;> simp [mapValues, get?, same, ih]

@[simp] theorem contains_mapValues :
    contains (mapValues f map) key = contains map key := by
  simp [contains, get?_mapValues]

omit [DecidableEq κ] in
@[simp] theorem keys_mapValues : keys (mapValues f map) = keys map := by
  simp [keys, mapValues]

theorem mapValues_erase : mapValues f (erase map key) = erase (mapValues f map) key := by
  induction map with
  | nil => rfl
  | cons entry rest ih =>
      simp only [mapValues] at ih
      by_cases same : entry.1 = key <;> simp [mapValues, erase, same, ih]

theorem mapValues_insert :
    mapValues f (insert map key value) = insert (mapValues f map) key (f value) := by
  induction map with
  | nil => rfl
  | cons entry rest ih =>
      simp only [mapValues] at ih
      by_cases same : entry.1 = key <;> simp [mapValues, insert, same, ih]

omit [DecidableEq κ] in
theorem mapValues_eq_self {g : α → α} (same : ∀ entry ∈ map, g entry.2 = entry.2) :
    mapValues g map = map := by
  have each : ∀ entry ∈ map, (entry.1, g entry.2) = id entry :=
    fun entry member => Prod.ext rfl (same entry member)
  rw [mapValues, List.map_congr_left each, List.map_id]

omit [DecidableEq κ] in
theorem mapValues_filter (keep : κ → Bool) :
    mapValues f (map.filter fun entry => keep entry.1) =
      (mapValues f map).filter fun entry => keep entry.1 := by
  simp only [mapValues, List.filter_map]
  rfl

end Values

omit [DecidableEq κ] in
theorem Distinct.filter (distinct : Distinct map) (keep : κ × α → Bool) :
    Distinct (map.filter keep) :=
  distinct.sublist (List.filter_sublist.map Prod.fst)

theorem Distinct.erase (distinct : Distinct map) : Distinct (erase map key) :=
  distinct.sublist keys_erase_sublist

/-- What is under a key is one entry or none. -/
theorem filter_key (distinct : Distinct map) :
    (map.filter fun entry => entry.1 == key) =
      (get? map key).toList.map fun value => (key, value) := by
  induction map with
  | nil => rfl
  | cons entry rest ih =>
      obtain ⟨fresh, later⟩ := List.nodup_cons.mp distinct
      by_cases same : entry.1 = key
      · have none_ : (rest.filter fun entry => entry.1 == key) = [] := by
          refine List.filter_eq_nil_iff.mpr fun other member => ?_
          have apart : other.1 ≠ key :=
            fun again => fresh (same ▸ again ▸ List.mem_map.mpr ⟨other, member, rfl⟩)
          simpa using apart
        rw [List.filter_cons_of_pos (by simp [same]), none_, get?, if_pos same, ← same]
        rfl
      · simp [get?, same, ih later]

section Entries

variable {entries before : List (κ × α)} {entry : κ × α}

theorem insert_of_not_mem (fresh : key ∉ keys map) :
    insert map key value = map ++ [(key, value)] := by
  induction map with
  | nil => rfl
  | cons present rest ih =>
      obtain ⟨apart, absent⟩ : key ≠ present.1 ∧
          key ∉ keys rest := by simpa [keys] using fresh
      simp [insert, Ne.symm apart, ih absent]

/-- A key that is bound to what it is bound to stays where it is. -/
theorem insert_of_get? (found : get? map key = some value) :
    insert map key value = map := by
  induction map with
  | nil => simp at found
  | cons entry rest ih =>
      by_cases same : entry.1 = key
      · have stored : entry.2 = value := by simpa [get?, same] using found
        simp [insert, ← same, ← stored]
      · simp [insert, same, ih (by simpa [get?, same] using found)]

theorem foldl_insert_of_distinct (distinct : Distinct (before ++ entries)) :
    entries.foldl (fun map entry => OrderedMap.insert map entry.1 entry.2) before =
      before ++ entries := by
  induction entries generalizing before with
  | nil => simp
  | cons entry entries ih =>
      have fresh : entry.1 ∉ keys before := by
        intro among
        rw [Distinct, keys, List.map_append, List.nodup_append] at distinct
        exact distinct.2.2 _ among _ List.mem_cons_self rfl
      rw [List.foldl_cons, insert_of_not_mem fresh, ih (by simpa using distinct)]
      simp

/-- Entries without a repeated key are a map as they are. -/
theorem Distinct.ofList (distinct : Distinct map) : ofList map = map :=
  foldl_insert_of_distinct (by simpa using distinct)

theorem Distinct.foldl_insert (distinct : Distinct before) :
    Distinct
      (entries.foldl (fun map entry => OrderedMap.insert map entry.1 entry.2) before) := by
  induction entries generalizing before with
  | nil => exact distinct
  | cons entry entries ih => exact ih distinct.insert

theorem distinct_ofList (entries : List (κ × α)) : Distinct (ofList entries) :=
  Distinct.foldl_insert List.nodup_nil

theorem mem_foldl_insert
    (among : entry ∈
      entries.foldl (fun map entry => OrderedMap.insert map entry.1 entry.2) before) :
    entry ∈ before ∨ entry ∈ entries := by
  induction entries generalizing before with
  | nil => exact .inl among
  | cons first entries ih =>
      rcases ih among with inserted | later
      · rcases eq_or_mem_of_mem_insert inserted with rfl | earlier
        · exact .inr List.mem_cons_self
        · exact .inl earlier
      · exact .inr (List.mem_cons_of_mem _ later)

theorem mem_of_mem_ofList (among : entry ∈ ofList entries) : entry ∈ entries :=
  (mem_foldl_insert among).resolve_left List.not_mem_nil

end Entries

end TicketFlow.OrderedMap
