namespace TicketFlow

/-! Finite maps that remember the order of insertion.

A map is the list of its entries.  Inserting under a present key replaces the
value in place; a new key goes to the end.  The look-up `get?` is the view
exposed to clients: each operation has an equation that says what it does to it.
Maps kept in key order are built with `insertSorted` instead of `insert`.
-/

universe u v w

abbrev OrderedMap (κ : Type u) (α : Type v) := List (κ × α)

namespace OrderedMap

variable {κ : Type u} {α : Type v} {β : Type w}

def keys (map : OrderedMap κ α) : List κ :=
  map.map Prod.fst

def values (map : OrderedMap κ α) : List α :=
  map.map Prod.snd

def mapValues (f : α → β) (map : OrderedMap κ α) : OrderedMap κ β :=
  map.map fun entry => (entry.1, f entry.2)

/-- No key occurs twice.  Every map built from `[]` by the operations
below is of this form. -/
def Distinct (map : OrderedMap κ α) : Prop :=
  (keys map).Nodup

section Lookup

variable [DecidableEq κ]

def get? : OrderedMap κ α → κ → Option α
  | [], _ => none
  | (present, value) :: rest, key => if present = key then some value else get? rest key

def contains (map : OrderedMap κ α) (key : κ) : Bool :=
  (get? map key).isSome

def insert : OrderedMap κ α → κ → α → OrderedMap κ α
  | [], key, value => [(key, value)]
  | (present, old) :: rest, key, value =>
      if present = key then (key, value) :: rest else
        (present, old) :: insert rest key value

def erase : OrderedMap κ α → κ → OrderedMap κ α
  | [], _ => []
  | (present, value) :: rest, key =>
      if present = key then erase rest key else (present, value) :: erase rest key

/-- Replaces the value under a present key and leaves the map alone otherwise. -/
def modify : OrderedMap κ α → κ → (α → α) → OrderedMap κ α
  | [], _, _ => []
  | (present, value) :: rest, key, f =>
      if present = key then (present, f value) :: rest else
        (present, value) :: modify rest key f

/-- Reads entries from left to right: a repeated key keeps its first
place and its last value. -/
def ofList (entries : List (κ × α)) : OrderedMap κ α :=
  entries.foldl (fun map entry => insert map entry.1 entry.2) []

/-- Inserts into a map whose keys are in the order `before`, keeping them so. -/
def insertSorted (before : κ → κ → Bool) : OrderedMap κ α → κ → α → OrderedMap κ α
  | [], key, value => [(key, value)]
  | (present, old) :: rest, key, value =>
      if present = key then (key, value) :: rest
      else if before key present then (key, value) :: (present, old) :: rest
      else (present, old) :: insertSorted before rest key value

/-- Reads entries into key order; of a repeated key the last value stays. -/
def sortedOfList (before : κ → κ → Bool) (entries : List (κ × α)) : OrderedMap κ α :=
  entries.foldl (fun map entry => insertSorted before map entry.1 entry.2) []

variable {map : OrderedMap κ α} {key other : κ} {value : α}

@[simp] theorem get?_nil : get? ([] : OrderedMap κ α) key = none := rfl

@[simp] theorem get?_insert_self : get? (insert map key value) key = some value := by
  induction map with
  | nil => simp [insert, get?]
  | cons entry rest ih =>
      by_cases same : entry.1 = key <;> simp [insert, get?, same, ih]

theorem get?_insert_of_ne (distinct : key ≠ other) :
    get? (insert map key value) other = get? map other := by
  induction map with
  | nil => simp [insert, get?, distinct]
  | cons entry rest ih =>
      by_cases same : entry.1 = key
      · simp [insert, get?, same, distinct]
      · by_cases found : entry.1 = other
        · simp [insert, get?, found, distinct.symm]
        · simp [insert, get?, same, found, ih]

@[simp] theorem get?_erase_self : get? (erase map key) key = none := by
  induction map with
  | nil => rfl
  | cons entry rest ih =>
      by_cases same : entry.1 = key <;> simp [erase, get?, same, ih]

theorem get?_erase_of_ne (distinct : key ≠ other) :
    get? (erase map key) other = get? map other := by
  induction map with
  | nil => rfl
  | cons entry rest ih =>
      by_cases same : entry.1 = key
      · simp [erase, get?, same, distinct, ih]
      · by_cases found : entry.1 = other
        · simp [erase, get?, found, distinct.symm]
        · simp [erase, get?, same, found, ih]

@[simp] theorem get?_modify_self {f : α → α} :
    get? (modify map key f) key = (get? map key).map f := by
  induction map with
  | nil => rfl
  | cons entry rest ih =>
      by_cases same : entry.1 = key <;> simp [modify, get?, same, ih]

theorem get?_modify_of_ne {f : α → α} (distinct : key ≠ other) :
    get? (modify map key f) other = get? map other := by
  induction map with
  | nil => rfl
  | cons entry rest ih =>
      by_cases same : entry.1 = key
      · simp [modify, get?, same, distinct]
      · by_cases found : entry.1 = other
        · simp [modify, get?, found, distinct.symm]
        · simp [modify, get?, same, found, ih]

@[simp] theorem contains_eq_true_iff :
    contains map key = true ↔ ∃ found, get? map key = some found := by
  simp [contains, Option.isSome_iff_exists]

end Lookup

end OrderedMap

end TicketFlow
