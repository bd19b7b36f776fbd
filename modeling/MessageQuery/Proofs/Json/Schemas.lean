import MessageQuery.Proofs.Json.Events
import MessageQuery.Proofs.Json.Survival
import MessageQuery.Proofs.Quantity

/-!
# Schemas read back

A datatype is read back from its text, alone or inside the text of a catalog, and then names the
same fields and constants. A declared value is left out of the text if there is none, and is read
as absent if it is null, so a definition that declares null comes back without a value.
-/

namespace MessageQuery

open Document Json Json.Reader

variable {depth : Nat}

/-! ## Lists and dictionaries -/

/-- Searches that agree on related elements give related results. -/
theorem rel_find? {α β : Type} {related : α → β → Prop} {p : α → Bool} {q : β → Bool}
    {firsts : List α} {seconds : List β} (all : List.Forall₂ related firsts seconds)
    (agree : ∀ first, ∀ second ∈ seconds, related first second → p first = q second) :
    Option.Rel related (firsts.find? p) (seconds.find? q) := by
  induction all with
  | nil => exact .none
  | @cons first second firsts seconds here _ ih =>
      rw [List.find?_cons, List.find?_cons, agree first second List.mem_cons_self here]
      cases q second with
      | true => exact .some here
      | false => exact ih fun other later member => agree other later (.tail _ member)

theorem mapM_map_eq_some {α β γ : Type} {f : α → β} {g : β → Option γ} {h : α → γ}
    (each : ∀ a, g (f a) = some (h a)) (as : List α) : (as.map f).mapM g = some (as.map h) := by
  have same : g ∘ f = fun a => pure (h a) := funext each
  rw [List.mapM_map, same, List.mapM_pure]
  rfl

theorem insertEntry_map {α β : Type} (f : α → β) (key : String) (value : α)
    (entries : List (String × α)) :
    insertEntry key (f value) (entries.map fun entry => (entry.1, f entry.2)) =
      (insertEntry key value entries).map fun entry => (entry.1, f entry.2) := by
  induction entries with
  | nil => rfl
  | cons entry rest ih =>
      rw [List.map_cons, insertEntry, insertEntry, ih]
      split
      · rfl
      · split
        · rfl
        · rfl

theorem insertAll_map {α β : Type} (f : α → β) (before entries : List (String × α)) :
    insertAll (before.map fun entry => (entry.1, f entry.2))
        (entries.map fun entry => (entry.1, f entry.2)) =
      (insertAll before entries).map fun entry => (entry.1, f entry.2) := by
  induction entries generalizing before with
  | nil => rfl
  | cons entry rest ih =>
      have onward := ih (insertEntry entry.1 entry.2 before)
      rw [← insertEntry_map] at onward
      exact onward

theorem lookupEntry_map {α β : Type} (f : α → β) (key : String) (entries : List (String × α)) :
    lookupEntry key (entries.map fun entry => (entry.1, f entry.2)) =
      (lookupEntry key entries).map f := by
  induction entries with
  | nil => rfl
  | cons entry rest ih =>
      rw [List.map_cons, lookupEntry, lookupEntry, ih]
      split
      · rfl
      · rfl

theorem mem_of_lookupEntry {α : Type} {key : String} {value : α} {entries : List (String × α)}
    (found : lookupEntry key entries = some value) : (key, value) ∈ entries := by
  induction entries with
  | nil => cases found
  | cons entry rest ih =>
      rw [lookupEntry] at found
      split at found
      · next same =>
          cases found
          rw [same]
          exact List.mem_cons_self
      · exact .tail _ (ih found)

theorem mem_insertAll {α : Type} {entry : String × α} {before entries : List (String × α)}
    (member : entry ∈ insertAll before entries) : entry ∈ before ∨ entry ∈ entries := by
  induction entries generalizing before with
  | nil => exact .inl member
  | cons first rest ih =>
      rcases ih member with early | late
      · rcases mem_insertEntry early with rfl | inBefore
        · exact .inr List.mem_cons_self
        · exact .inl inBefore
      · exact .inr (.tail _ late)

theorem Dict.entries_ofList {α : Type} (entries : List (String × α)) :
    (Dict.ofList entries).entries = insertAll [] entries := by
  have fold : ∀ dict : Dict α,
      (entries.foldl (fun dict entry => dict.insert entry.1 entry.2) dict).entries =
        insertAll dict.entries entries := by
    induction entries with
    | nil => exact fun _ => rfl
    | cons entry rest ih => exact fun dict => ih (dict.insert entry.1 entry.2)
  exact fold .empty

/-! ## Equal datatypes -/

/-- A declared null counts as no value. -/
def Value.unlessNull : Option Value → Option Value
  | some .null | none => none
  | some v => some v

theorem Value.unlessNull_some {v : Value} (notNull : v ≠ .null) : unlessNull (some v) = some v := by
  cases v with
  | null => exact absurd rfl notNull
  | _ => rfl

/-- Either there is nothing but null on both sides, or two values that are equal. -/
theorem Value.cases_of_beq_unlessNull {found? declared? : Option Value}
    (same : (found? == unlessNull declared?) = true) :
    (found? = none ∧ (declared? = none ∨ declared? = some .null)) ∨
      ∃ found declared, found? = some found ∧ declared? = some declared ∧ declared ≠ .null ∧
        found.equal declared = true := by
  cases declared? with
  | none =>
      cases found? with
      | none => exact .inl ⟨rfl, .inl rfl⟩
      | some found => cases same
  | some declared =>
      by_cases isNull : declared = .null
      · subst isNull
        cases found? with
        | none => exact .inl ⟨rfl, .inr rfl⟩
        | some found => cases same
      · rw [unlessNull_some isNull] at same
        cases found? with
        | none => cases same
        | some found => exact .inr ⟨found, declared, rfl, rfl, isNull, same⟩

namespace FieldDefinition

/-- Equality up to the form of the numbers in declared values. -/
def equal (a b : FieldDefinition) : Bool :=
  a.name == b.name && a.type == b.type && a.isArray == b.isArray &&
    a.isConstant == b.isConstant && a.value? == b.value?

def withoutNull (definition : FieldDefinition) : FieldDefinition :=
  { definition with value? := Value.unlessNull definition.value? }

/-- The first definition stands for the second: they are equal but for a null that the second
declares. -/
def Restores (found declared : FieldDefinition) : Prop :=
  found.equal declared.withoutNull = true

/-- The declared value, if there is one, survives. -/
def Survives (depth : Nat) (definition : FieldDefinition) : Prop :=
  ∀ declared, definition.value? = some declared → declared.Survives depth

variable {a b definition : FieldDefinition} {value : Value}

theorem equal_iff : a.equal b = true ↔ a.name = b.name ∧ a.type = b.type ∧
    a.isArray = b.isArray ∧ a.isConstant = b.isConstant ∧ (a.value? == b.value?) = true := by
  simp only [equal, Bool.and_eq_true, beq_iff_eq, and_assoc]

theorem withoutNull_of_ne (notNull : definition.value? ≠ some .null) :
    definition.withoutNull = definition := by
  obtain ⟨name, type, isArray, isConstant, value?⟩ := definition
  cases value? with
  | none => rfl
  | some v =>
      have present := Value.unlessNull_some fun isNull => notNull (congrArg some isNull)
      exact congrArg (FieldDefinition.mk name type isArray isConstant) present

theorem Restores.iff : a.Restores b ↔ a.name = b.name ∧ a.type = b.type ∧ a.isArray = b.isArray ∧
    a.isConstant = b.isConstant ∧ (a.value? == Value.unlessNull b.value?) = true :=
  equal_iff

/-- Both declare the same values, unless it is null that the second declares. -/
theorem Restores.declares_eq (restores : a.Restores b)
    (notNull : value = .null → b.value? ≠ some .null) : a.declares value = b.declares value := by
  obtain ⟨-, -, -, -, values⟩ := Restores.iff.mp restores
  obtain ⟨isNone, isAbsent | isNull⟩ | ⟨found, declared, isFound, isDeclared, -, equal⟩ :=
    Value.cases_of_beq_unlessNull values
  · rw [declares, declares, isNone, isAbsent]
  · rw [declares, declares, isNone, isNull]
    cases value with
    | null => exact absurd isNull (notNull rfl)
    | _ => rfl
  · rw [declares, declares, isFound, isDeclared]
    exact Value.equal_congr equal value

theorem Restores.equal_iff (restores : a.Restores b) :
    a.equal b = true ↔ b.value? ≠ some .null := by
  constructor
  · intro equal isNull
    obtain ⟨-, -, -, -, values⟩ := FieldDefinition.equal_iff.mp equal
    obtain ⟨-, -, -, -, left⟩ := Restores.iff.mp restores
    obtain ⟨isNone, -⟩ | ⟨_, declared, -, isDeclared, notNull, -⟩ :=
      Value.cases_of_beq_unlessNull left
    · rw [isNone, isNull] at values
      cases values
    · rw [isNull] at isDeclared
      cases isDeclared
      exact notNull rfl
  · intro notNull
    rw [← withoutNull_of_ne notNull]
    exact restores

theorem forall_equal_iff {founds declareds : List FieldDefinition}
    (all : List.Forall₂ Restores founds declareds) :
    List.Forall₂ (fun found declared => found.equal declared = true) founds declareds ↔
      ∀ declared ∈ declareds, declared.value? ≠ some .null := by
  induction all with
  | nil => simp
  | cons here _ ih =>
      rw [List.forall₂_cons, List.forall_mem_cons]
      exact and_congr here.equal_iff ih

theorem name_eq_of_rel {found? declared? : Option FieldDefinition}
    (related : Option.Rel Restores found? declared?) : found?.map name = declared?.map name := by
  cases related with
  | none => rfl
  | some restores => exact congrArg some (Restores.iff.mp restores).1

end FieldDefinition

namespace Datatype

def equal (a b : Datatype) : Bool :=
  a.definitions.isEqv b.definitions FieldDefinition.equal

def withoutNulls (datatype : Datatype) : Datatype :=
  ⟨datatype.definitions.map FieldDefinition.withoutNull⟩

/-- All declared values survive. -/
def Survives (depth : Nat) (datatype : Datatype) : Prop :=
  ∀ definition ∈ datatype.definitions, definition.Survives depth

def DeclaresNull (datatype : Datatype) : Prop :=
  ∃ definition ∈ datatype.definitions, definition.value? = some .null

/-- The first datatype stands for the second: they are equal, and name the same fields and
constants, up to the null values that the second declares. -/
structure Restores (loaded original : Datatype) : Prop where
  withoutNulls : loaded.equal original.withoutNulls = true
  equal_iff : loaded.equal original = true ↔ ¬original.DeclaresNull
  field : ∀ name,
    Option.Rel FieldDefinition.Restores (loaded.field? name) (original.field? name)
  constantName : ∀ value, (value = .null → ¬original.DeclaresNull) →
    loaded.constantName? value = original.constantName? value

variable {a b loaded original datatype : Datatype}

theorem equal_iff_forall₂ : a.equal b = true ↔
    List.Forall₂ (fun first second => first.equal second = true) a.definitions b.definitions := by
  obtain ⟨firsts⟩ := a
  obtain ⟨seconds⟩ := b
  unfold equal
  induction firsts generalizing seconds with
  | nil => cases seconds <;> simp [List.isEqv]
  | cons first firsts ih =>
      cases seconds with
      | nil => simp [List.isEqv]
      | cons second seconds =>
          rw [List.isEqv, Bool.and_eq_true, List.forall₂_cons]
          exact and_congr_right fun _ => ih seconds

theorem restores_of_equal (same : loaded.equal original.withoutNulls = true) :
    loaded.Restores original := by
  have all : List.Forall₂ FieldDefinition.Restores loaded.definitions original.definitions := by
    have mapped : List.Forall₂ (fun first second => first.equal second = true)
        loaded.definitions (original.definitions.map FieldDefinition.withoutNull) :=
      equal_iff_forall₂.mp same
    rw [List.forall₂_map_right_iff] at mapped
    exact mapped
  refine ⟨same, ?_, ?_, ?_⟩
  · have notNull : ¬original.DeclaresNull ↔
        ∀ declared ∈ original.definitions, declared.value? ≠ some .null := by
      simp [DeclaresNull]
    rw [equal_iff_forall₂, notNull]
    exact FieldDefinition.forall_equal_iff all
  · intro name
    refine rel_find? all fun found declared _ restores => ?_
    obtain ⟨isName, -, -, isConstant, -⟩ := FieldDefinition.Restores.iff.mp restores
    rw [isName, isConstant]
  · intro value notNull
    refine FieldDefinition.name_eq_of_rel (rel_find? all fun found declared member restores => ?_)
    obtain ⟨-, -, -, isConstant, -⟩ := FieldDefinition.Restores.iff.mp restores
    rw [isConstant, restores.declares_eq fun isNull declares =>
      notNull isNull ⟨declared, member, declares⟩]

end Datatype

/-! ## Texts of datatypes -/

namespace FieldDefinition

variable {definition : FieldDefinition}

/-- The definition as it is read back. -/
def reread (definition : FieldDefinition) : FieldDefinition :=
  { definition with value? := (Value.unlessNull definition.value?).map Value.normal }

def valueDatum : Option Value → Datum
  | some v => .value v
  | none => .absent

/-- What is read from the text of a definition. -/
def datum (definition : FieldDefinition) : Datum :=
  .list [.text definition.name, .text definition.type, .flag definition.isArray,
    .flag definition.isConstant, valueDatum definition.reread.value?]

theorem ofDatum?_datum (definition : FieldDefinition) :
    ofDatum? definition.datum = some definition.reread := by
  unfold datum reread
  cases Value.unlessNull definition.value? with
  | none => rfl
  | some v => rfl

theorem reread_restores (survives : definition.Survives depth) :
    definition.reread.Restores definition := by
  refine Restores.iff.mpr ⟨rfl, rfl, rfl, rfl, ?_⟩
  unfold reread
  dsimp only
  cases isDeclared : definition.value? with
  | none => rfl
  | some v =>
      by_cases isNull : v = .null
      · rw [isNull]
        rfl
      · rw [Value.unlessNull_some isNull]
        exact Value.normal_equal (Value.survives_iff.mp (survives v isDeclared)).1

theorem reads_write (survives : definition.Survives depth) :
    Reads (shaped shape (depth + 1)) definition.write definition.datum := by
  have name := @reads_text depth definition.name
  have type := @reads_text depth definition.type
  have isArray := @reads_flag depth definition.isArray
  have isConstant := @reads_flag depth definition.isConstant
  unfold write datum reread
  refine reads_record
    (.given name (.given type (.given isArray (.given isConstant ?_)))) (by decide)
  cases isDeclared : definition.value? with
  | none => exact .left .nil
  | some v =>
      obtain ⟨plain, shallow⟩ := Value.survives_iff.mp (survives v isDeclared)
      by_cases isNull : v = .null
      · rw [isNull]
        exact .given reads_absent .nil
      · rw [Value.unlessNull_some isNull]
        exact .given (reads_optionalValue plain shallow isNull) .nil

end FieldDefinition

namespace Datatype

variable {datatype : Datatype}

def reread (datatype : Datatype) : Datatype :=
  ⟨datatype.definitions.map FieldDefinition.reread⟩

def datum (datatype : Datatype) : Datum :=
  .list [.list (datatype.definitions.map FieldDefinition.datum)]

theorem ofDatum?_datum (datatype : Datatype) :
    ofDatum? datatype.datum = some datatype.reread := by
  unfold datum ofDatum?
  dsimp only
  rw [mapM_map_eq_some FieldDefinition.ofDatum?_datum]
  rfl

theorem reread_restores (survives : datatype.Survives depth) :
    datatype.reread.Restores datatype := by
  apply restores_of_equal
  rw [equal_iff_forall₂]
  unfold reread withoutNulls
  rw [List.forall₂_map_left_iff, List.forall₂_map_right_iff, List.forall₂_same]
  exact fun definition member => FieldDefinition.reread_restores (survives definition member)

theorem reads_write (survives : datatype.Survives depth) :
    Reads (shaped shape (depth + 3)) datatype.write datatype.datum := by
  have definitions : Reads (shaped (.list FieldDefinition.shape) (depth + 2))
      (writeArray (datatype.definitions.map FieldDefinition.write))
      (.list (datatype.definitions.map FieldDefinition.datum)) := by
    apply reads_list
    rw [List.forall₂_map_left_iff, List.forall₂_map_right_iff, List.forall₂_same]
    exact fun definition member => ⟨startsElement_writeObject _,
      FieldDefinition.reads_write (survives definition member)⟩
  exact reads_record (.given definitions .nil) (by decide)

end Datatype

/-! ## Texts of catalogs -/

namespace Catalog

variable {topics : List (String × String)} {datatypes : List (String × Datatype)}

/-- The text of a catalog in which the datatypes have their own texts. -/
def write (topics : List (String × String)) (datatypes : List (String × Datatype)) : List Char :=
  writeObject
    [("topics", writeArray (topics.map writeTopic)),
      ("datatypes", writeObject (datatypes.map fun entry => (entry.1, entry.2.write)))]

def topicDatum (topic : String × String) : Datum :=
  .list [.text topic.1, .text topic.2]

def datum (topics : List (String × String)) (datatypes : List (String × Datatype)) : Datum :=
  .list [.list (topics.map topicDatum),
    .dict ((insertAll [] datatypes).map fun entry => (entry.1, entry.2.datum))]

theorem ofDatum?_datum (topics : List (String × String)) (datatypes : List (String × Datatype)) :
    ofDatum? (datum topics datatypes) =
      some (ofLists topics
        ((insertAll [] datatypes).map fun entry => (entry.1, entry.2.reread))) := by
  have each : ∀ topic, topicOfDatum? (topicDatum topic) = some (id topic) := fun _ => rfl
  have names := mapM_map_eq_some each topics
  have entries : Datatype.entriesOfDatum?
      (.dict ((insertAll [] datatypes).map fun entry => (entry.1, entry.2.datum))) =
        some ((insertAll [] datatypes).map fun entry => (entry.1, entry.2.reread)) := by
    unfold Datatype.entriesOfDatum?
    dsimp only
    apply mapM_map_eq_some
    intro entry
    rw [Datatype.ofDatum?_datum]
    rfl
  unfold datum ofDatum?
  dsimp only
  rw [names, entries, List.map_id]
  rfl

theorem reads_writeTopic (topic : String × String) :
    Reads (shaped topicShape (depth + 1)) (writeTopic topic) (topicDatum topic) :=
  reads_record (.given (reads_text topic.1) (.given (reads_text topic.2) .nil)) (by decide)

theorem reads_write (survives : ∀ entry ∈ datatypes, entry.2.Survives depth) :
    Reads (shaped shape (depth + 5)) (write topics datatypes) (datum topics datatypes) := by
  have names : Reads (shaped (.list topicShape) (depth + 4)) (writeArray (topics.map writeTopic))
      (.list (topics.map topicDatum)) := by
    apply reads_list
    rw [List.forall₂_map_left_iff, List.forall₂_map_right_iff, List.forall₂_same]
    exact fun topic _ => ⟨startsElement_writeObject _, reads_writeTopic topic⟩
  have entries : Reads (shaped Datatype.dictShape (depth + 4))
      (writeObject (datatypes.map fun entry => (entry.1, entry.2.write)))
      (.dict (insertAll [] (datatypes.map fun entry => (entry.1, entry.2.datum)))) := by
    apply reads_dict
    rw [List.forall₂_map_left_iff, List.forall₂_map_right_iff, List.forall₂_same]
    exact fun entry member => ⟨rfl, Datatype.reads_write (survives entry member)⟩
  have inserted := insertAll_map Datatype.datum [] datatypes
  rw [List.map_nil] at inserted
  rw [inserted] at entries
  exact reads_record (.given names (.given entries .nil)) (by decide)

/-- The datatype that is loaded for a name stands for the one that was written. -/
theorem rel_datatype? (survives : ∀ entry ∈ datatypes, entry.2.Survives depth) (name : String) :
    Option.Rel Datatype.Restores
      ((ofLists topics ((insertAll [] datatypes).map fun entry =>
        (entry.1, entry.2.reread))).datatype? name)
      ((ofLists topics datatypes).datatype? name) := by
  have sorted : SortedByKey (insertAll [] datatypes) := sortedByKey_insertAll .nil datatypes
  have unchanged := @insertAll_of_sorted _ [] _
    ((sortedByKey_map fun entry : String × Datatype => entry.2.reread).mpr sorted)
  unfold datatype? ofLists Dict.get?
  rw [Dict.entries_ofList, Dict.entries_ofList, unchanged, List.nil_append, lookupEntry_map]
  cases found : lookupEntry name (insertAll [] datatypes) with
  | none => exact .none
  | some datatype =>
      have member := (mem_insertAll (mem_of_lookupEntry found)).resolve_left List.not_mem_nil
      exact .some (Datatype.reread_restores (survives _ member))

end Catalog

/-- Datatypes are read back from their texts, alone and inside the text of a catalog, if their
declared values survive where they stand. That is three levels down in the text of a datatype, and
five in the text of a catalog. -/
theorem Datatype.read_back (datatype : Datatype) (topics : List (String × String))
    (datatypes : List (String × Datatype)) :
    (datatype.Survives 124 →
      ∃ loaded, ofJson? (String.ofList datatype.write) = .ok loaded ∧
        loaded.Restores datatype) ∧
    ((∀ entry ∈ datatypes, entry.2.Survives 122) →
      ∃ catalog, Catalog.ofJson? (String.ofList (Catalog.write topics datatypes)) = .ok catalog ∧
        (∀ topic, catalog.datatypeOfTopic? topic =
          (Catalog.ofLists topics datatypes).datatypeOfTopic? topic) ∧
        ∀ name, Option.Rel Datatype.Restores (catalog.datatype? name)
          ((Catalog.ofLists topics datatypes).datatype? name)) := by
  constructor
  · intro survives
    exact ⟨datatype.reread, load_eq_of_reads (reads_write survives) (ofDatum?_datum datatype),
      reread_restores survives⟩
  · intro survives
    exact ⟨_, load_eq_of_reads (Catalog.reads_write survives)
      (Catalog.ofDatum?_datum topics datatypes), fun _ => rfl, Catalog.rel_datatype? survives⟩

/-- Fields and constants, with and without declared values. -/
def sampleDatatype : Datatype :=
  ⟨[.array "scans" "float32", .constant "LIMIT" "int32" (.ofInt (-7)),
    .constant "UNITS" "json" (.array [.string "m", .number (.big 7), .object []]),
    { name := "mode", type := "json", value? := some (.bool true) },
    { name := "NONE", type := "json", isConstant := true }]⟩

theorem Datatype.read_back_sample :
    sampleDatatype.Survives 122 ∧
      (∃ loaded, ofJson? (String.ofList sampleDatatype.write) = .ok loaded ∧
        loaded.Restores sampleDatatype) ∧
      ∃ catalog,
        Catalog.ofJson? (String.ofList (Catalog.write [("/t", "D")] [("D", sampleDatatype)])) =
          .ok catalog ∧
        Option.Rel Datatype.Restores (catalog.datatype? "D") (some sampleDatatype) := by
  have fits : ∀ depth, 2 ≤ depth → sampleDatatype.Survives depth := by
    intro depth deep definition member declared isDeclared
    apply Value.survives_iff.mpr
    simp only [sampleDatatype, FieldDefinition.array, FieldDefinition.constant, List.mem_cons,
      List.not_mem_nil, or_false] at member
    rcases member with rfl | rfl | rfl | rfl | rfl <;> cases isDeclared
    · exact ⟨nofun, Nat.zero_le _⟩
    · refine ⟨⟨trivial, nofun, ⟨.nil, nofun, trivial⟩, trivial⟩, deep⟩
    · exact ⟨trivial, Nat.zero_le _⟩
  have inCatalog : ∀ entry ∈ [("D", sampleDatatype)], entry.2.Survives 122 := by
    intro entry member
    rw [List.mem_singleton.mp member]
    exact fits 122 (by decide)
  obtain ⟨alone, inside⟩ := read_back sampleDatatype [("/t", "D")] [("D", sampleDatatype)]
  obtain ⟨catalog, loads, -, names⟩ := inside inCatalog
  exact ⟨fits 122 (by decide), alone (fits 124 (by decide)), catalog, loads, names "D"⟩

/-- A constant that is null is read back without its value. -/
theorem Datatype.not_read_back_null :
    (Datatype.mk [.constant "NIL" "json" .null]).Survives 124 ∧
      ∃ loaded,
        ofJson? (String.ofList (Datatype.mk [.constant "NIL" "json" .null]).write) = .ok loaded ∧
        loaded.equal ⟨[.constant "NIL" "json" .null]⟩ = false ∧
        (Datatype.mk [.constant "NIL" "json" .null]).constantName? .null = some "NIL" ∧
        loaded.constantName? .null = none := by
  have survives : (Datatype.mk [.constant "NIL" "json" .null]).Survives 124 := by
    intro definition member declared isDeclared
    rw [List.mem_singleton.mp member] at isDeclared
    cases isDeclared
    exact Value.survives_iff.mpr ⟨trivial, Nat.zero_le _⟩
  refine ⟨survives, _, load_eq_of_reads (reads_write survives) (ofDatum?_datum _), ?_, rfl, rfl⟩
  rfl

end MessageQuery
