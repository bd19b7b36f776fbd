import MessageQuery.Proofs.Equality
import MessageQuery.Proofs.Json.Numerals

/-!
# Values read back

A value that can be written is read back from its text, as long as it does not nest deeper than
the reader goes. Strings, keys and binary64 numbers are the same as before; integers are the same
in their normal form. The reader goes down one level for each array and object, so the induction
is on the depth that is left.
-/

namespace MessageQuery

open Json Json.Reader

namespace Number

/-- NaN and the infinities cannot be written. -/
def IsPlain (n : Number) : Prop :=
  ∀ x, n = .float x → x.isFinite = true

/-- The form in which a number is read. -/
def normal : Number → Number
  | .uint n => .ofInt n.toNat
  | .int n => .ofInt n.toInt
  | .big n => .ofInt n
  | .float x => .float x

theorem normal_equal {n : Number} (plain : n.IsPlain) : n.normal.equal n = true := by
  have whole : ∀ v : Int, n.toInt? = some v → (ofInt v).equal n = true := by
    intro v isInt
    unfold equal
    rw [toInt?_ofInt, isInt]
    exact beq_self_eq_true v
  cases n with
  | uint n => exact whole _ rfl
  | int n => exact whole _ rfl
  | big n => exact whole _ rfl
  | float x =>
      apply equal_self_iff.mpr
      rintro ⟨⟩
      exact absurd (plain .nan rfl) Bool.false_ne_true

/-- What cannot be written is written as null. -/
theorem toJson_of_not_isPlain {n : Number} (notPlain : ¬n.IsPlain) :
    n.toJson = "null".toList := by
  cases n with
  | float x =>
      cases x with
      | finite negative e f =>
          exact absurd (fun y same => by cases same; rfl) notPlain
      | nan => rfl
      | infinite negative => rfl
  | _ => exact absurd nofun notPlain

/-- A number is written as a numeral that is read as its normal form. -/
theorem exists_numeral_toJson {n : Number} (plain : n.IsPlain) :
    ∃ numeral : Numeral, numeral.WellFormed ∧ numeral.text = n.toJson ∧
      parse? numeral.text = some n.normal := by
  have whole : ∀ v : Int, n.toJson = Text.digitsOfInt v → n.normal = .ofInt v →
      ∃ numeral : Numeral, numeral.WellFormed ∧ numeral.text = n.toJson ∧
        parse? numeral.text = some n.normal := by
    intro v written isNormal
    refine ⟨integerNumeral v, wellFormed_integerNumeral v, ?_, ?_⟩
    · rw [text_integerNumeral, written]
    · rw [text_integerNumeral, isNormal, number?_digitsOfInt]
  cases n with
  | uint n => exact whole _ rfl rfl
  | int n => exact whole _ rfl rfl
  | big n => exact whole _ rfl rfl
  | float x =>
      cases x with
      | finite negative e f => exact Reader.exists_numeral_toJson negative e f
      | nan => exact absurd (plain _ rfl) Bool.false_ne_true
      | infinite negative => exact absurd (plain _ rfl) Bool.false_ne_true

end Number

namespace Value

/-! ## Values that can be written -/

mutual

/-- How deep arrays and objects nest. -/
def nesting : Value → Nat
  | .array items => nestingItems items + 1
  | .object fields => nestingFields fields + 1
  | .null | .bool _ | .number _ | .string _ => 0

def nestingItems : List Value → Nat
  | [] => 0
  | item :: rest => max item.nesting (nestingItems rest)

def nestingFields : List (String × Value) → Nat
  | [] => 0
  | (_, field) :: rest => max field.nesting (nestingFields rest)

end

mutual

/-- The fields of objects are sorted, and none starts with the number key; numbers are finite. -/
def IsPlain : Value → Prop
  | .number n => n.IsPlain
  | .array items => ArePlain items
  | .object fields =>
      SortedByKey fields ∧ (∀ first, fields.head? = some first → first.1 ≠ numberKey) ∧
        FieldsArePlain fields
  | .null | .bool _ | .string _ => True

def ArePlain : List Value → Prop
  | [] => True
  | item :: rest => item.IsPlain ∧ ArePlain rest

def FieldsArePlain : List (String × Value) → Prop
  | [] => True
  | (_, field) :: rest => field.IsPlain ∧ FieldsArePlain rest

end

mutual

/-- The value with its numbers in the form in which they are read. -/
def normal : Value → Value
  | .number n => .number n.normal
  | .array items => .array (normalItems items)
  | .object fields => .object (normalFields fields)
  | .null => .null
  | .bool b => .bool b
  | .string s => .string s

def normalItems : List Value → List Value
  | [] => []
  | item :: rest => item.normal :: normalItems rest

def normalFields : List (String × Value) → List (String × Value)
  | [] => []
  | (key, field) :: rest => (key, field.normal) :: normalFields rest

end

mutual

/-- The form of numbers makes no difference to equality. -/
theorem normal_equal : ∀ {value : Value}, value.IsPlain → value.normal.equal value = true
  | .null, _ => rfl
  | .bool b, _ => beq_self_eq_true b
  | .number _, plain => Number.normal_equal plain
  | .string s, _ => beq_self_eq_true s
  | .array _, plain => normalItems_equal plain
  | .object _, plain => normalFields_equal plain.2.2

theorem normalItems_equal : ∀ {items : List Value}, ArePlain items →
    equalItems (normalItems items) items = true
  | [], _ => rfl
  | _ :: _, plain =>
      Bool.and_eq_true_iff.mpr ⟨normal_equal plain.1, normalItems_equal plain.2⟩

theorem normalFields_equal : ∀ {fields : List (String × Value)}, FieldsArePlain fields →
    equalFields (normalFields fields) fields = true
  | [], _ => rfl
  | (key, _) :: _, plain =>
      Bool.and_eq_true_iff.mpr ⟨Bool.and_eq_true_iff.mpr ⟨beq_self_eq_true key,
        normal_equal plain.1⟩, normalFields_equal plain.2⟩

end

end Value

/-! ## Parts -/

namespace Value

theorem normalItems_eq_map (items : List Value) : normalItems items = items.map normal := by
  induction items with
  | nil => rfl
  | cons item rest ih => rw [normalItems, ih, List.map_cons]

theorem normalFields_eq_map (fields : List (String × Value)) :
    normalFields fields = fields.map fun field => (field.1, field.2.normal) := by
  induction fields with
  | nil => rfl
  | cons field rest ih => rw [normalFields, ih, List.map_cons]

theorem writeItems_eq_map (items : List Value) : writeItems items = items.map writeValue := by
  induction items with
  | nil => rfl
  | cons item rest ih => rw [writeItems, ih, List.map_cons]

theorem writeFields_eq_map (fields : List (String × Value)) :
    writeFields fields = fields.map fun field => (field.1, writeValue field.2) := by
  induction fields with
  | nil => rfl
  | cons field rest ih => rw [writeFields, ih, List.map_cons]

/-- The elements of an array are values that can be written, one level less deep. -/
theorem part_of_mem_items {items : List Value} {depth : Nat} (plain : ArePlain items)
    (shallow : nestingItems items ≤ depth) {item : Value} (member : item ∈ items) :
    item.IsPlain ∧ item.nesting ≤ depth := by
  induction items with
  | nil => cases member
  | cons head rest ih =>
      obtain ⟨first, later⟩ := Nat.max_le.mp shallow
      rcases List.mem_cons.mp member with rfl | inRest
      · exact ⟨plain.1, first⟩
      · exact ih plain.2 later inRest

theorem part_of_mem_fields {fields : List (String × Value)} {depth : Nat}
    (plain : FieldsArePlain fields) (shallow : nestingFields fields ≤ depth)
    {field : String × Value} (member : field ∈ fields) :
    field.2.IsPlain ∧ field.2.nesting ≤ depth := by
  induction fields with
  | nil => cases member
  | cons head rest ih =>
      obtain ⟨first, later⟩ := Nat.max_le.mp shallow
      rcases List.mem_cons.mp member with rfl | inRest
      · exact ⟨plain.1, first⟩
      · exact ih plain.2 later inRest

end Value

namespace Json.Reader

variable {nested? : Option (Reader Value)} {nested : Reader Value}

/-! ## Scalars -/

/-- What may come first in the text of a number. -/
def startsNumber (c : Char) : Bool :=
  c = '-' || c.isDigit

theorem Numeral.WellFormed.exists_head {n : Numeral} (wellFormed : n.WellFormed) :
    ∃ c tail, n.text = c :: tail ∧ startsNumber c = true := by
  rw [n.text_eq]
  cases n.negative with
  | true => exact ⟨'-', _, rfl, rfl⟩
  | false =>
      obtain ⟨c, digits, isCons⟩ := List.exists_cons_of_ne_nil wellFormed.whole.ne_nil
      have digit : c.isDigit = true := wellFormed.whole.all c (isCons ▸ List.mem_cons_self)
      rw [isCons]
      exact ⟨c, _, rfl, by rw [startsNumber, digit, Bool.or_true]⟩

theorem isSpace_of_startsNumber {c : Char} (starts : startsNumber c = true) :
    isSpace c = false := by
  cases isSpaceChar : isSpace c with
  | false => rfl
  | true =>
      simp only [isSpace, Bool.or_eq_true, beq_iff_eq] at isSpaceChar
      rcases isSpaceChar with ((rfl | rfl) | rfl) | rfl <;> cases starts

theorem reads_number {n : Number} (plain : n.IsPlain) :
    Reads (valueOver nested?) n.toJson (.number n.normal) := by
  obtain ⟨numeral, wellFormed, isText, isNumber⟩ := Number.exists_numeral_toJson plain
  obtain ⟨c, tail, isCons, starts⟩ := wellFormed.exists_head
  intro rest ends
  have stops : Path.Grammar.Stops continuesNumber rest := ends.stops (by decide)
  have spelled : spelledNumber numeral.text rest = .ok (n.normal, rest) := by
    unfold spelledNumber
    rw [isNumber]
    rfl
  have plainReader : (do return .number (← spelledNumber (← Reader.numeral).text) : Reader Value)
      (numeral.text ++ rest) = .ok (.number n.normal, rest) := by
    rw [bind_eq (numeral_eq wellFormed stops), bind_eq spelled]
    rfl
  rw [← isText]
  unfold valueOver
  rw [isCons, List.cons_append, bind_eq (token_eq (isSpace_of_startsNumber starts)),
    ← List.cons_append, ← isCons]
  refine (congrFun ?_ (numeral.text ++ rest)).trans plainReader
  split
  · cases starts
  · cases starts
  · cases starts
  · cases starts
  · cases starts
  · cases starts
  · exact if_pos starts

theorem reads_null : Reads (valueOver nested?) "null".toList .null := by
  intro rest _
  unfold valueOver
  refine (bind_eq (token_eq rfl)).trans ?_
  exact dropWord_eq Value.null 'n' "ull".toList rest

theorem reads_bool (b : Bool) : Reads (valueOver nested?) (writeBool b) (.bool b) := by
  intro rest _
  unfold valueOver
  cases b with
  | true =>
      refine (bind_eq (token_eq rfl)).trans ?_
      exact dropWord_eq (Value.bool true) 't' "rue".toList rest
  | false =>
      refine (bind_eq (token_eq rfl)).trans ?_
      exact dropWord_eq (Value.bool false) 'f' "alse".toList rest

theorem reads_string (s : String) : Reads (valueOver nested?) (writeString s) (.string s) := by
  intro rest _
  have reads := string_eq s rest
  unfold valueOver
  refine (bind_eq (token_eq rfl)).trans ?_
  refine (bind_eq reads).trans ?_
  rfl

/-! ## Arrays and objects -/

/-- What a value starts with tells strings and null from other values. -/
theorem exists_head_writeValue (v : Value) :
    ∃ c tail, writeValue v = c :: tail ∧ isSpace c = false ∧ c ≠ ']' ∧
      (c = '"' → ∃ s, v = .string s) ∧ (v.IsPlain → c = 'n' → v = .null) := by
  cases v with
  | null => exact ⟨'n', _, rfl, rfl, by decide, nofun, fun _ _ => rfl⟩
  | bool b => cases b <;> exact ⟨_, _, rfl, rfl, by decide, nofun, nofun⟩
  | string s => exact ⟨'"', _, rfl, rfl, by decide, fun _ => ⟨s, rfl⟩, nofun⟩
  | array items => exact ⟨'[', _, rfl, rfl, by decide, nofun, nofun⟩
  | object fields => exact ⟨'\x7b', _, rfl, rfl, by decide, nofun, nofun⟩
  | number n =>
      by_cases plain : n.IsPlain
      · obtain ⟨numeral, wellFormed, isText, _⟩ := Number.exists_numeral_toJson plain
        obtain ⟨c, tail, isCons, starts⟩ := wellFormed.exists_head
        have notEqual : ∀ d, startsNumber d = false → c ≠ d := by
          rintro d other rfl
          rw [other] at starts
          cases starts
        exact ⟨c, tail, isText.symm.trans isCons, isSpace_of_startsNumber starts,
          notEqual ']' rfl, fun isQuote => absurd isQuote (notEqual '"' rfl),
          fun _ isNull => absurd isNull (notEqual 'n' rfl)⟩
      · exact ⟨'n', _, Number.toJson_of_not_isPlain plain, rfl, by decide, nofun,
          fun isPlain => absurd isPlain plain⟩

theorem startsElement_writeValue (v : Value) : StartsElement (writeValue v) := by
  obtain ⟨c, tail, isCons, visible, notEnd, _⟩ := exists_head_writeValue v
  exact ⟨c, tail, isCons, visible, notEnd⟩

theorem writeArray_append (texts : List (List Char)) (rest : List Char) :
    writeArray texts ++ rest = '[' :: (separated texts ++ ']' :: rest) := by
  simp [writeArray]

theorem reads_array {texts : List (List Char)} {items : List Value}
    (all : List.Forall₂ (fun text item => StartsElement text ∧ Reads nested text item)
      texts items) :
    Reads (valueOver (some nested)) (writeArray texts) (.array items) := by
  intro rest _
  rw [writeArray_append]
  unfold valueOver
  refine (bind_eq (token_eq rfl)).trans ?_
  refine (bind_eq (drop_cons '[' _)).trans ?_
  rw [bind_eq (arrayTail_eq all rest)]
  rfl

/-- The text of a member. -/
def memberText (member : String × List Char) : List Char :=
  writeString member.1 ++ ':' :: member.2

theorem writeObject_append (members : List (String × List Char)) (rest : List Char) :
    writeObject members ++ rest =
      '\x7b' :: (separated (members.map memberText) ++ '\x7d' :: rest) := by
  have texts : members.map memberText =
      members.map fun member => writeString member.1 ++ ':' :: member.2 := rfl
  rw [texts]
  simp [writeObject]

/-- A key and its colon are taken before the reader of the member is run. -/
theorem member_eq {α : Type} {body : String → Reader α} {key : String} {text rest : List Char}
    {result : α} (reads : body key (text ++ rest) = .ok (result, rest)) :
    (do
      let key ← string
      colon
      body key : Reader α) (memberText (key, text) ++ rest) = .ok (result, rest) := by
  unfold memberText
  rw [List.append_assoc, List.cons_append, bind_eq (string_eq key _), bind_eq colon_eq]
  exact reads

theorem insertEntry_of_last {α : Type} {entries : List (String × α)} {key : String} (value : α)
    (less : ∀ entry ∈ entries, entry.1 < key) :
    insertEntry key value entries = entries ++ [(key, value)] := by
  induction entries with
  | nil => rfl
  | cons entry rest ih =>
      have below := less entry List.mem_cons_self
      rw [insertEntry, if_neg (String.lt_asymm below), if_neg (String.ne_of_lt below).symm,
        ih fun other member => less other (List.mem_cons_of_mem _ member)]
      rfl

/-- Inserts one entry after the other. -/
def insertAll {α : Type} (before entries : List (String × α)) : List (String × α) :=
  entries.foldl (fun dict entry => insertEntry entry.1 entry.2 dict) before

/-- Sorted entries are inserted one after the other at the end. -/
theorem insertAll_of_sorted {α : Type} {before entries : List (String × α)}
    (sorted : SortedByKey (before ++ entries)) :
    insertAll before entries = before ++ entries := by
  induction entries generalizing before with
  | nil => exact (List.append_nil before).symm
  | cons entry rest ih =>
      have last : insertEntry entry.1 entry.2 before = before ++ [entry] :=
        insertEntry_of_last _ fun other member =>
          (List.pairwise_append.mp sorted).2.2 other member entry List.mem_cons_self
      rw [List.append_cons] at sorted
      rw [List.append_cons, ← ih sorted, ← last]
      rfl

/-- One member of a dictionary. -/
def dictMember {α : Type} (element : Reader α) (entries : List (String × α)) :
    Reader (List (String × α)) := do
  let key ← string
  colon
  return insertEntry key (← element) entries

theorem reads_dictMember {α : Type} {element : Reader α} {key : String} {text : List Char}
    {value : α} (reads : Reads element text value) (before : List (String × α)) :
    Reads (dictMember element before) (memberText (key, text))
      (insertEntry key value before) := by
  intro rest ends
  unfold dictMember
  apply member_eq
  rw [bind_eq (reads rest ends)]
  rfl

theorem readsMembers_dict {α : Type} {element : Reader α} {members : List (String × List Char)}
    {entries : List (String × α)}
    (all : List.Forall₂ (fun member entry => member.1 = entry.1 ∧ Reads element member.2 entry.2)
      members entries) (before : List (String × α)) :
    ReadsMembers (dictMember element) before (members.map memberText)
      (insertAll before entries) := by
  induction all generalizing before with
  | nil => exact .nil before
  | @cons member entry members entries here _ ih =>
      obtain ⟨key, text⟩ := member
      obtain ⟨rfl, reads⟩ := here
      exact .cons rfl (reads_dictMember reads before) (ih _)

theorem readsMembers_fields {fields before : List (String × Value)}
    (sorted : SortedByKey (before ++ fields.map fun field => (field.1, field.2.normal)))
    (reads : ∀ field ∈ fields, Reads nested (writeValue field.2) field.2.normal) :
    ReadsMembers (insertMember nested) before
      (fields.map fun field => memberText (field.1, writeValue field.2))
      (before ++ fields.map fun field => (field.1, field.2.normal)) := by
  have all : List.Forall₂
      (fun (member : String × List Char) (entry : String × Value) =>
        member.1 = entry.1 ∧ Reads nested member.2 entry.2)
      (fields.map fun field => (field.1, writeValue field.2))
      (fields.map fun field => (field.1, field.2.normal)) := by
    rw [List.forall₂_map_left_iff, List.forall₂_map_right_iff, List.forall₂_same]
    exact fun field member => ⟨rfl, reads field member⟩
  have members := readsMembers_dict all before
  rw [insertAll_of_sorted sorted, List.map_map] at members
  exact members

theorem sortedByKey_map {α β : Type} {entries : List (String × α)} (f : String × α → β) :
    SortedByKey (entries.map fun entry => (entry.1, f entry)) ↔ SortedByKey entries :=
  List.pairwise_map

theorem reads_object {fields : List (String × Value)} (sorted : SortedByKey fields)
    (notNumber : ∀ first, fields.head? = some first → first.1 ≠ Value.numberKey)
    (reads : ∀ field ∈ fields, Reads nested (writeValue field.2) field.2.normal) :
    Reads (valueOver (some nested))
      (writeObject (fields.map fun field => (field.1, writeValue field.2)))
      (.object (fields.map fun field => (field.1, field.2.normal))) := by
  intro rest _
  have texts : (fields.map fun field => (field.1, writeValue field.2)).map memberText =
      fields.map fun field => memberText (field.1, writeValue field.2) := List.map_map
  rw [writeObject_append, texts]
  unfold valueOver
  refine (bind_eq (token_eq rfl)).trans ?_
  refine (bind_eq (drop_cons '\x7b' _)).trans ?_
  unfold objectValue
  cases fields with
  | nil =>
      rw [List.map_nil, separated, List.nil_append, bind_eq (hasMember_end true)]
      refine (bind_eq endObject_eq).trans ?_
      rfl
  | cons first others =>
      have members := @readsMembers_fields nested others [(first.1, first.2.normal)]
        ((sortedByKey_map fun field : String × Value => field.2.normal).mpr sorted)
        fun field member => reads field (List.mem_cons_of_mem _ member)
      have ends := ends_commas (others.map fun field => memberText (field.1, writeValue field.2))
        (rfl : isDelimiter '\x7d' = true) rest
      have firstRead := reads first List.mem_cons_self _ ends
      have started : ∀ tail, hasMember true (writeString first.1 ++ tail) =
          .ok (true, writeString first.1 ++ tail) := fun _ => hasMember_first
      rw [List.map_cons, separated_cons, List.append_assoc, memberText, List.append_assoc,
        List.cons_append, bind_eq (started _), if_pos rfl, bind_eq (string_eq first.1 _),
        bind_eq colon_eq, if_neg (notNumber first rfl), bind_eq firstRead,
        bind_eq (objectTail_next members rest)]
      rfl

/-! ## Whole values -/

theorem reads_value {depth : Nat} {v : Value} (plain : v.IsPlain) (shallow : v.nesting ≤ depth) :
    Reads (value depth) (writeValue v) v.normal := by
  induction depth generalizing v with
  | zero =>
      cases v with
      | null => exact reads_null
      | bool b => exact reads_bool b
      | number n => exact reads_number plain
      | string s => exact reads_string s
      | array items => cases shallow
      | object fields => cases shallow
  | succ depth ih =>
      cases v with
      | null => exact reads_null
      | bool b => exact reads_bool b
      | number n => exact reads_number plain
      | string s => exact reads_string s
      | array items =>
          have all : List.Forall₂ (fun text item => StartsElement text ∧
              Reads (value depth) text item) (items.map writeValue) (items.map Value.normal) := by
            rw [List.forall₂_map_left_iff, List.forall₂_map_right_iff, List.forall₂_same]
            intro item member
            obtain ⟨itemPlain, itemShallow⟩ :=
              Value.part_of_mem_items plain (Nat.le_of_succ_le_succ shallow) member
            exact ⟨startsElement_writeValue item, ih itemPlain itemShallow⟩
          rw [writeValue, Value.normal, Value.writeItems_eq_map, Value.normalItems_eq_map]
          exact reads_array all
      | object fields =>
          obtain ⟨sorted, notNumber, allPlain⟩ := plain
          rw [writeValue, Value.normal, Value.writeFields_eq_map, Value.normalFields_eq_map]
          apply reads_object sorted notNumber
          intro field member
          obtain ⟨fieldPlain, fieldShallow⟩ :=
            Value.part_of_mem_fields allPlain (Nat.le_of_succ_le_succ shallow) member
          exact ih fieldPlain fieldShallow

theorem run_eq_of_reads {α : Type} {reader : Reader α} {cs : List Char} {result : α}
    (reads : Reads reader cs result) : reader.run (String.ofList cs) = .ok result := by
  have whole := reads [] Path.Grammar.Stops.nil
  rw [List.append_nil] at whole
  unfold run
  rw [String.toList_ofList, whole]
  rfl

end Json.Reader

theorem Value.ofJson?_toJson {v : Value} (plain : v.IsPlain) (shallow : v.nesting ≤ maxDepth) :
    ofJson? v.toJson = .ok v.normal :=
  run_eq_of_reads (reads_value plain shallow)

end MessageQuery
