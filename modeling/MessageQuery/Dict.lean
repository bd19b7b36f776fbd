/-!
# Dictionaries sorted by key

The entries of a dictionary are sorted by key, so equal contents are equal dictionaries.
Inserting a key that is present replaces its value. `insertEntry` works on bare lists of
entries, which also hold the fields of object values.
-/

namespace MessageQuery

/-- Each key comes before the keys after it. -/
def SortedByKey {α : Type u} (entries : List (String × α)) : Prop :=
  entries.Pairwise fun first second => first.1 < second.1

def insertEntry {α : Type u} (key : String) (value : α) :
    List (String × α) → List (String × α)
  | [] => [(key, value)]
  | entry :: rest =>
      if key < entry.1 then (key, value) :: entry :: rest
      else if key = entry.1 then (key, value) :: rest
      else entry :: insertEntry key value rest

theorem mem_insertEntry {α : Type u} {key : String} {value : α} {entries : List (String × α)}
    {entry : String × α} (member : entry ∈ insertEntry key value entries) :
    entry = (key, value) ∨ entry ∈ entries := by
  induction entries with
  | nil => simpa [insertEntry] using member
  | cons head rest ih =>
      unfold insertEntry at member
      split at member
      · simpa using member
      · split at member
        · rcases List.mem_cons.1 member with here | there
          · exact .inl here
          · exact .inr (List.mem_cons_of_mem _ there)
        · rcases List.mem_cons.1 member with here | there
          · exact .inr (by simp [here])
          · rcases ih there with new | old
            · exact .inl new
            · exact .inr (List.mem_cons_of_mem _ old)

theorem lt_of_not_lt_of_ne {first second : String} (notLess : ¬first < second)
    (different : first ≠ second) : second < first := by
  apply Decidable.byContradiction
  intro notGreater
  exact different (String.le_antisymm (String.not_lt.1 notGreater) (String.not_lt.1 notLess))

theorem sortedByKey_insertEntry {α : Type u} (key : String) (value : α)
    {entries : List (String × α)} (sorted : SortedByKey entries) :
    SortedByKey (insertEntry key value entries) := by
  induction entries with
  | nil => simp [insertEntry, SortedByKey]
  | cons head rest ih =>
      obtain ⟨headFirst, restSorted⟩ := List.pairwise_cons.1 sorted
      unfold insertEntry
      split
      · next less =>
          refine List.pairwise_cons.2 ⟨fun entry member => ?_, sorted⟩
          rcases List.mem_cons.1 member with here | there
          · exact here ▸ less
          · exact String.lt_trans less (headFirst entry there)
      · split
        · next same =>
            exact List.pairwise_cons.2
              ⟨fun entry member => same ▸ headFirst entry member, restSorted⟩
        · next notLess different =>
            refine List.pairwise_cons.2 ⟨fun entry member => ?_, ih restSorted⟩
            rcases mem_insertEntry member with new | old
            · exact new ▸ lt_of_not_lt_of_ne notLess different
            · exact headFirst entry old

theorem mem_keys_insertEntry {α : Type u} {key name : String} {value : α}
    {entries : List (String × α)} :
    name ∈ (insertEntry key value entries).map Prod.fst ↔
      name = key ∨ name ∈ entries.map Prod.fst := by
  induction entries with
  | nil => simp [insertEntry]
  | cons head rest ih =>
      unfold insertEntry
      split
      · simp
      · split
        · next same => simp [same]
        · simp only [List.map_cons, List.mem_cons, ih]
          constructor <;> intro h <;> rcases h with h | h | h <;> simp [h]

/-- The value of the first entry with the given key. -/
def lookupEntry {α : Type u} (key : String) : List (String × α) → Option α
  | [] => none
  | entry :: rest => if key = entry.1 then some entry.2 else lookupEntry key rest

theorem lookupEntry_insertEntry {α : Type u} (key other : String) (value : α)
    (entries : List (String × α)) :
    lookupEntry other (insertEntry key value entries) =
      if other = key then some value else lookupEntry other entries := by
  induction entries with
  | nil => simp [insertEntry, lookupEntry]
  | cons head rest ih =>
      unfold insertEntry
      split
      · simp [lookupEntry]
      · split
        · next same =>
            by_cases here : other = key
            · simp [lookupEntry, here]
            · simp [lookupEntry, here, ← same]
        · next different =>
            by_cases here : other = head.1
            · simp [lookupEntry, here]
              intro same
              exact absurd same.symm different
            · simp [lookupEntry, here, ih]

theorem lookupEntry_filter_ne {α : Type u} (key : String) (entries : List (String × α)) :
    lookupEntry key (entries.filter fun entry => entry.1 ≠ key) = none := by
  induction entries with
  | nil => rfl
  | cons entry rest ih =>
      by_cases same : entry.1 = key
      · rw [List.filter_cons_of_neg (by simpa using same)]
        exact ih
      · rw [List.filter_cons_of_pos (by simpa using same), lookupEntry, if_neg (Ne.symm same)]
        exact ih

structure Dict (α : Type u) where
  entries : List (String × α)
  sorted : SortedByKey entries

namespace Dict

def empty {α : Type u} : Dict α :=
  ⟨[], List.Pairwise.nil⟩

def get? {α : Type u} (dict : Dict α) (key : String) : Option α :=
  lookupEntry key dict.entries

def contains {α : Type u} (dict : Dict α) (key : String) : Bool :=
  (dict.get? key).isSome

def insert {α : Type u} (dict : Dict α) (key : String) (value : α) : Dict α :=
  ⟨insertEntry key value dict.entries, sortedByKey_insertEntry key value dict.sorted⟩

theorem get?_insert {α : Type u} (dict : Dict α) (key other : String) (value : α) :
    (dict.insert key value).get? other = if other = key then some value else dict.get? other :=
  lookupEntry_insertEntry key other value dict.entries

def erase {α : Type u} (dict : Dict α) (key : String) : Dict α :=
  ⟨dict.entries.filter fun entry => entry.1 ≠ key, dict.sorted.filter _⟩

theorem get?_erase_self {α : Type u} (dict : Dict α) (key : String) :
    (dict.erase key).get? key = none :=
  lookupEntry_filter_ne key dict.entries

def keys {α : Type u} (dict : Dict α) : List String :=
  dict.entries.map Prod.fst

/-- Of the values given for one key the last one stays. -/
def ofList {α : Type u} (entries : List (String × α)) : Dict α :=
  entries.foldl (fun dict entry => dict.insert entry.1 entry.2) empty

theorem mem_keys_of_get? {α : Type u} {dict : Dict α} {key : String} {value : α}
    (found : dict.get? key = some value) : key ∈ dict.keys := by
  have inEntries : ∀ entries : List (String × α),
      lookupEntry key entries = some value → key ∈ entries.map Prod.fst := by
    intro entries
    induction entries with
    | nil => simp [lookupEntry]
    | cons head rest ih =>
        unfold lookupEntry
        split
        · next same => simp [same]
        · exact fun later => List.mem_cons_of_mem _ (ih later)
  exact inEntries dict.entries found

theorem mem_keys_insertAll {α : Type u} (entries : List (String × α)) (dict : Dict α)
    (name : String) :
    name ∈ (entries.foldl (fun d e => d.insert e.1 e.2) dict).keys ↔
      name ∈ entries.map Prod.fst ∨ name ∈ dict.keys := by
  induction entries generalizing dict with
  | nil => simp
  | cons head rest ih =>
      rw [List.foldl_cons, ih]
      simp only [Dict.keys, Dict.insert, mem_keys_insertEntry, List.map_cons, List.mem_cons]
      exact or_left_comm.trans or_assoc.symm

end Dict

/-- The names in rising order, each once. -/
def sortedNames (names : List String) : List String :=
  (Dict.ofList (names.map fun name => (name, ()))).keys

theorem mem_sortedNames {names : List String} {name : String} :
    name ∈ sortedNames names ↔ name ∈ names := by
  rw [sortedNames, Dict.ofList, Dict.mem_keys_insertAll]
  simp [Dict.keys, Dict.empty]

end MessageQuery
