import MessageQuery.Proofs.Json.Values

/-!
# Which values survive

A value survives at a place where so many levels are left if its text is read there as an equal
value. The values that can be written and nest at most so deep survive, and no others do. To see
the latter, the reader is followed over the text of any value: what it takes ends where the text
ends, and what it has read differs from a value that cannot be written.
-/

namespace MessageQuery

open Json Json.Reader

/-- The text of the value is read, with so many levels left, as an equal value. -/
def Value.Survives (depth : Nat) (v : Value) : Prop :=
  ∃ w, (Reader.value depth).run v.toJson = .ok w ∧ w.equal v = true

/-- The value can be written and nests at most so deep. -/
def Value.Fits (depth : Nat) (v : Value) : Prop :=
  v.IsPlain ∧ v.nesting ≤ depth

/-- What is told of a value and what has been read from its text. -/
def Value.FitsIfEqual (depth : Nat) (w v : Value) : Prop :=
  w.equal v = true → v.Fits depth

namespace Json.Reader

variable {α β : Type} {reader : Reader α} {cs : List Char}

theorem bind_eq_ok_iff {next : α → Reader β} {result : β} {rest : List Char} :
    (reader >>= next) cs = .ok (result, rest) ↔
      ∃ first middle, reader cs = .ok (first, middle) ∧ next first middle = .ok (result, rest) := by
  change Except.bind (reader cs) _ = _ ↔ _
  cases read : reader cs with
  | error fault => simp [Except.bind]
  | ok pair =>
      obtain ⟨first, middle⟩ := pair
      simp [Except.bind]

/-- Where the reader succeeds at the text, it takes just the text, and the result is as told. -/
def Takes (reader : Reader α) (cs : List Char) (told : α → Prop) : Prop :=
  ∀ rest, Ends rest → ∀ result later, reader (cs ++ rest) = .ok (result, later) →
    later = rest ∧ told result

theorem Reads.takes {result : α} (reads : Reads reader cs result) {told : α → Prop}
    (holds : told result) : Takes reader cs told := by
  intro rest ends found later succeeds
  rw [reads rest ends] at succeeds
  cases succeeds
  exact ⟨rfl, holds⟩

/-! ## Arrays -/

theorem takes_elements {element : Reader α} {told : α → β → Prop} {text : β → List Char}
    {items : List β} (starts : ∀ item ∈ items, StartsElement (text item))
    (takes : ∀ item ∈ items, Takes element (text item) fun result => told result item)
    {fuel : Nat} (enough : items.length ≤ fuel) {rest later : List Char} {results : List α}
    (succeeds : elements element fuel false (afterCommas (items.map text) ++ ']' :: rest) =
      .ok (results, later)) :
    later = ']' :: rest ∧ List.Forall₂ told results items := by
  induction items generalizing fuel results with
  | nil =>
      cases fuel with
      | zero =>
          cases succeeds
          exact ⟨rfl, .nil⟩
      | succ fuel =>
          unfold elements at succeeds
          rw [List.map_nil, afterCommas, List.flatMap_nil, List.nil_append,
            bind_eq (hasElement_end false)] at succeeds
          cases succeeds
          exact ⟨rfl, .nil⟩
  | cons item items ih =>
      cases fuel with
      | zero => cases enough
      | succ fuel =>
          unfold elements at succeeds
          rw [List.map_cons, afterCommas_cons, List.cons_append, List.append_assoc,
            bind_eq (hasElement_next (starts item List.mem_cons_self)), if_pos rfl] at succeeds
          obtain ⟨first, middle, firstRead, onward⟩ := bind_eq_ok_iff.mp succeeds
          obtain ⟨others, last, othersRead, same⟩ := bind_eq_ok_iff.mp onward
          cases same
          obtain ⟨rfl, holds⟩ := takes item List.mem_cons_self _
            (ends_commas _ (rfl : isDelimiter ']' = true) rest) _ _ firstRead
          obtain ⟨isLater, all⟩ := ih (fun other member => starts other (.tail _ member))
            (fun other member => takes other (.tail _ member)) (Nat.le_of_succ_le_succ enough)
            othersRead
          exact ⟨isLater, .cons holds all⟩

theorem takes_arrayTail {element : Reader α} {told : α → β → Prop} {text : β → List Char}
    {items : List β} (starts : ∀ item ∈ items, StartsElement (text item))
    (takes : ∀ item ∈ items, Takes element (text item) fun result => told result item)
    {rest later : List Char} {results : List α}
    (succeeds : arrayTail element (separated (items.map text) ++ ']' :: rest) =
      .ok (results, later)) :
    later = rest ∧ List.Forall₂ told results items := by
  have elementsTaken : ∀ middle, elements element
        ((separated (items.map text) ++ ']' :: rest).length + 1) true
        (separated (items.map text) ++ ']' :: rest) = .ok (results, middle) →
      middle = ']' :: rest ∧ List.Forall₂ told results items := by
    intro middle read
    cases items with
    | nil =>
        unfold elements at read
        rw [List.map_nil, separated, List.nil_append, bind_eq (hasElement_end true)] at read
        cases read
        exact ⟨rfl, .nil⟩
    | cons item items =>
        have commas := length_le_afterCommas (items.map text)
        rw [List.length_map] at commas
        rw [List.map_cons, separated_cons, List.append_assoc] at read
        unfold elements at read
        rw [bind_eq (hasElement_first (starts item List.mem_cons_self)), if_pos rfl] at read
        obtain ⟨first, between, firstRead, onward⟩ := bind_eq_ok_iff.mp read
        obtain ⟨others, last, othersRead, same⟩ := bind_eq_ok_iff.mp onward
        cases same
        obtain ⟨rfl, holds⟩ := takes item List.mem_cons_self _
          (ends_commas _ (rfl : isDelimiter ']' = true) rest) _ _ firstRead
        obtain ⟨isLater, all⟩ := takes_elements
          (fun other member => starts other (.tail _ member))
          (fun other member => takes other (.tail _ member))
          (by simp only [List.length_append]; omega) othersRead
        exact ⟨isLater, .cons holds all⟩
  unfold arrayTail at succeeds
  rw [bind_eq (get_eq _)] at succeeds
  obtain ⟨found, middle, read, onward⟩ := bind_eq_ok_iff.mp succeeds
  obtain ⟨_, last, ended, same⟩ := bind_eq_ok_iff.mp onward
  cases same
  obtain ⟨rfl, all⟩ := elementsTaken middle read
  refine ⟨?_, all⟩
  unfold endArray at ended
  rw [bind_eq (token_eq rfl)] at ended
  cases ended
  rfl

/-! ## Objects -/

/-- What is read for a field: its key, and a value of which something is told. -/
def FieldRead (told : Value → Value → Prop) (entry field : String × Value) : Prop :=
  entry.1 = field.1 ∧ told entry.2 field.2

variable {nested : Reader Value} {told : Value → Value → Prop} {fields : List (String × Value)}
  {rest later : List Char}

/-- The text of a field. -/
def fieldText (field : String × Value) : List Char :=
  memberText (field.1, writeValue field.2)

theorem hasMember_nextField (field : String × Value) (tail : List Char) :
    hasMember false (',' :: (fieldText field ++ tail)) = .ok (true, fieldText field ++ tail) :=
  hasMember_next

/-- The reader of a field takes its key and then its value. -/
theorem exists_value_of_insertMember {field : String × Value} {tail : List Char}
    {before after : List (String × Value)}
    (succeeds : insertMember nested before (fieldText field ++ tail) = .ok (after, later)) :
    ∃ w, nested (writeValue field.2 ++ tail) = .ok (w, later) ∧
      after = insertEntry field.1 w before := by
  unfold insertMember fieldText memberText at succeeds
  rw [List.append_assoc, List.cons_append, bind_eq (string_eq field.1 _),
    bind_eq colon_eq] at succeeds
  obtain ⟨w, middle, read, same⟩ := bind_eq_ok_iff.mp succeeds
  cases same
  exact ⟨w, read, rfl⟩

theorem takes_members
    (takes : ∀ field ∈ fields, Takes nested (writeValue field.2) fun w => told w field.2)
    {fuel : Nat} (enough : fields.length ≤ fuel) {before after : List (String × Value)}
    (succeeds : members (insertMember nested) fuel false before
      (afterCommas (fields.map fieldText) ++ '}' :: rest) = .ok (after, later)) :
    later = '}' :: rest ∧
      ∃ entries, List.Forall₂ (FieldRead told) entries fields ∧ after = insertAll before entries := by
  induction fields generalizing fuel before with
  | nil =>
      have ended : (after, later) = (before, '}' :: rest) := by
        cases fuel with
        | zero =>
            cases succeeds
            rfl
        | succ fuel =>
            unfold members at succeeds
            rw [List.map_nil, afterCommas, List.flatMap_nil, List.nil_append,
              bind_eq (hasMember_end false)] at succeeds
            cases succeeds
            rfl
      cases ended
      exact ⟨rfl, [], .nil, rfl⟩
  | cons field fields ih =>
      cases fuel with
      | zero => cases enough
      | succ fuel =>
          unfold members at succeeds
          rw [List.map_cons, afterCommas_cons, List.cons_append, List.append_assoc,
            bind_eq (hasMember_nextField field _), if_pos rfl] at succeeds
          obtain ⟨between, middle, here, onward⟩ := bind_eq_ok_iff.mp succeeds
          obtain ⟨w, read, rfl⟩ := exists_value_of_insertMember here
          obtain ⟨rfl, holds⟩ := takes field List.mem_cons_self _
            (ends_commas _ (rfl : isDelimiter '}' = true) rest) _ _ read
          obtain ⟨isLater, entries, all, isAfter⟩ := ih
            (fun other member => takes other (.tail _ member)) (Nat.le_of_succ_le_succ enough)
            onward
          exact ⟨isLater, (field.1, w) :: entries, .cons ⟨rfl, holds⟩ all, isAfter⟩

theorem takes_objectTail
    (takes : ∀ field ∈ fields, Takes nested (writeValue field.2) fun w => told w field.2)
    {before after : List (String × Value)}
    (succeeds : objectTail (insertMember nested) false before
      (afterCommas (fields.map fieldText) ++ '}' :: rest) = .ok (after, later)) :
    later = rest ∧
      ∃ entries, List.Forall₂ (FieldRead told) entries fields ∧ after = insertAll before entries := by
  have commas := length_le_afterCommas (fields.map fieldText)
  rw [List.length_map] at commas
  unfold objectTail at succeeds
  rw [bind_eq (get_eq _)] at succeeds
  obtain ⟨found, middle, read, onward⟩ := bind_eq_ok_iff.mp succeeds
  obtain ⟨rfl, all⟩ := takes_members takes (by rw [List.length_append]; omega) read
  rw [bind_eq endObject_eq] at onward
  cases onward
  exact ⟨rfl, all⟩

/-- The reader never succeeds. -/
def Refuses (reader : Reader α) : Prop :=
  ∀ cs result rest, reader cs ≠ .ok (result, rest)

theorem refuses_throw (fault : Fault) : Refuses (throw fault : Reader α) :=
  fun _ _ _ => nofun

theorem Refuses.after {next : α → Reader β} (refuses : ∀ first, Refuses (next first)) :
    Refuses (reader >>= next) := by
  intro cs result rest succeeds
  obtain ⟨first, middle, _, onward⟩ := bind_eq_ok_iff.mp succeeds
  exact refuses first middle result rest onward

theorem refuses_refuse : Refuses (refuse : Reader α) := by
  unfold refuse
  apply Refuses.after
  intro first
  split
  · exact .after fun _ => .after fun _ => refuses_throw _
  · exact .after fun _ => .after fun _ => refuses_throw _
  · exact .after fun _ => .after fun _ => refuses_throw _
  · exact .after fun _ => refuses_throw _
  · exact refuses_throw _
  · exact refuses_throw _
  · split
    · exact .after fun _ => refuses_throw _
    · exact refuses_throw _
  · exact refuses_throw _

/-- A text that is taken at the start of a value ends where the value ends. -/
theorem eq_of_text {v : Value} {tail : List Char} {s : String}
    (succeeds : text (writeValue v ++ tail) = .ok (s, later)) : later = tail := by
  obtain ⟨c, behind, isCons, visible, -, isString, -⟩ := exists_head_writeValue v
  unfold text at succeeds
  rw [isCons, List.cons_append, bind_eq (token_eq visible)] at succeeds
  split at succeeds
  · next isQuote =>
      obtain ⟨spelled, rfl⟩ := isString isQuote
      rw [← List.cons_append, ← isCons, writeValue, string_eq] at succeeds
      cases succeeds
      rfl
  · exact absurd succeeds (refuses_refuse _ _ _)

theorem spelledNumber_ok {digits : List Char} {n : Number}
    (succeeds : spelledNumber digits cs = .ok (n, later)) : later = cs := by
  unfold spelledNumber at succeeds
  cases spelled : Number.parse? digits with
  | none =>
      rw [spelled] at succeeds
      cases succeeds
  | some m =>
      rw [spelled] at succeeds
      cases succeeds
      rfl

/-- Behind the value of a field an object only ends if there is no other field. -/
theorem eq_of_endObject {texts : List (List Char)}
    (succeeds : endObject (afterCommas texts ++ '}' :: rest) = .ok ((), later)) : later = rest := by
  cases texts with
  | nil =>
      rw [afterCommas, List.flatMap_nil, List.nil_append, endObject_eq] at succeeds
      cases succeeds
      rfl
  | cons text texts =>
      unfold endObject at succeeds
      rw [afterCommas_cons, List.cons_append, bind_eq (token_eq rfl)] at succeeds
      cases succeeds

/-- An object is read as a number, or as the fields that have been read, inserted one after the
other. -/
theorem takes_object
    (takes : ∀ field ∈ fields, Takes nested (writeValue field.2) fun w => told w field.2) :
    Takes (valueOver (some nested))
      (writeObject (fields.map fun field => (field.1, writeValue field.2))) fun w =>
        (∃ n, w = .number n) ∨
          (∀ first, fields.head? = some first → first.1 ≠ Value.numberKey) ∧
            ∃ entries, List.Forall₂ (FieldRead told) entries fields ∧
              w = .object (insertAll [] entries) := by
  intro rest ends w later succeeds
  have texts : (fields.map fun field => (field.1, writeValue field.2)).map memberText =
      fields.map fieldText := List.map_map
  rw [writeObject_append, texts] at succeeds
  unfold valueOver at succeeds
  rw [bind_eq (token_eq rfl)] at succeeds
  replace succeeds := (bind_eq (drop_cons '\x7b' _)).symm.trans succeeds
  unfold objectValue at succeeds
  cases fields with
  | nil =>
      rw [List.map_nil, separated, List.nil_append, bind_eq (hasMember_end true)] at succeeds
      replace succeeds := (bind_eq endObject_eq).symm.trans succeeds
      cases succeeds
      refine ⟨rfl, .inr ⟨?_, [], .nil, rfl⟩⟩
      intro first isFirst
      cases isFirst
  | cons first others =>
      have started : ∀ tail, hasMember true (fieldText first ++ tail) =
          .ok (true, fieldText first ++ tail) := fun _ => hasMember_first
      rw [List.map_cons, separated_cons, List.append_assoc, bind_eq (started _), if_pos rfl,
        fieldText, memberText, List.append_assoc, List.cons_append,
        bind_eq (string_eq first.1 _), bind_eq colon_eq] at succeeds
      split at succeeds
      · obtain ⟨spelled, middle, textRead, onward⟩ := bind_eq_ok_iff.mp succeeds
        obtain ⟨n, between, numberRead, onward⟩ := bind_eq_ok_iff.mp onward
        obtain ⟨_, last, ended, same⟩ := bind_eq_ok_iff.mp onward
        cases same
        rw [spelledNumber_ok numberRead, eq_of_text textRead] at ended
        exact ⟨eq_of_endObject ended, .inl ⟨n, rfl⟩⟩
      · next notNumber =>
          obtain ⟨value, middle, valueRead, onward⟩ := bind_eq_ok_iff.mp succeeds
          obtain ⟨after, last, tailRead, same⟩ := bind_eq_ok_iff.mp onward
          cases same
          obtain ⟨rfl, holds⟩ := takes first List.mem_cons_self _
            (ends_commas _ (rfl : isDelimiter '\x7d' = true) rest) _ _ valueRead
          obtain ⟨isLater, entries, all, rfl⟩ :=
            takes_objectTail (fun other member => takes other (.tail _ member)) tailRead
          refine ⟨isLater, .inr ⟨?_, (first.1, value) :: entries, .cons ⟨rfl, holds⟩ all, rfl⟩⟩
          rintro _ ⟨⟩
          exact notNumber

theorem takes_array {items : List Value}
    (takes : ∀ item ∈ items, Takes nested (writeValue item) fun w => told w item) :
    Takes (valueOver (some nested)) (writeArray (items.map writeValue)) fun w =>
      ∃ results, List.Forall₂ told results items ∧ w = .array results := by
  intro rest ends w later succeeds
  rw [writeArray_append] at succeeds
  unfold valueOver at succeeds
  rw [bind_eq (token_eq rfl)] at succeeds
  replace succeeds := (bind_eq (drop_cons '[' _)).symm.trans succeeds
  obtain ⟨results, middle, read, same⟩ := bind_eq_ok_iff.mp succeeds
  cases same
  obtain ⟨isLater, all⟩ :=
    takes_arrayTail (fun item _ => startsElement_writeValue item) takes read
  exact ⟨isLater, results, all, rfl⟩

end Json.Reader

/-! ## Equal parts -/

namespace Value

variable {depth : Nat}

theorem fits_of_equalItems {results items : List Value}
    (all : List.Forall₂ (FitsIfEqual depth) results items)
    (same : equalItems results items = true) : ArePlain items ∧ nestingItems items ≤ depth := by
  induction all with
  | nil => exact ⟨trivial, Nat.zero_le _⟩
  | cons here _ ih =>
      obtain ⟨heads, tails⟩ := Bool.and_eq_true_iff.mp same
      obtain ⟨plain, shallow⟩ := here heads
      obtain ⟨othersPlain, othersShallow⟩ := ih tails
      exact ⟨⟨plain, othersPlain⟩, Nat.max_le.mpr ⟨shallow, othersShallow⟩⟩

theorem fits_of_equalFields {entries fields : List (String × Value)}
    (all : List.Forall₂ (FieldRead (FitsIfEqual depth)) entries fields)
    (same : equalFields entries fields = true) :
    FieldsArePlain fields ∧ nestingFields fields ≤ depth := by
  induction all with
  | nil => exact ⟨trivial, Nat.zero_le _⟩
  | @cons entry field _ _ here _ ih =>
      obtain ⟨heads, tails⟩ := Bool.and_eq_true_iff.mp same
      obtain ⟨plain, shallow⟩ := here.2 (Bool.and_eq_true_iff.mp heads).2
      obtain ⟨othersPlain, othersShallow⟩ := ih tails
      exact ⟨⟨plain, othersPlain⟩, Nat.max_le.mpr ⟨shallow, othersShallow⟩⟩

theorem keys_eq_of_equalFields : ∀ {entries fields : List (String × Value)},
    equalFields entries fields = true → entries.map Prod.fst = fields.map Prod.fst
  | [], [], _ => rfl
  | (_, _) :: _, (_, _) :: _, same => by
      obtain ⟨heads, tails⟩ := Bool.and_eq_true_iff.mp same
      rw [List.map_cons, List.map_cons, keys_eq_of_equalFields tails,
        eq_of_beq (Bool.and_eq_true_iff.mp heads).1]

end Value

/-- Whether entries are sorted is told by their keys. -/
theorem sortedByKey_iff_keys {α : Type} {entries : List (String × α)} :
    SortedByKey entries ↔ (entries.map Prod.fst).Pairwise (· < ·) :=
  List.pairwise_map.symm

theorem sortedByKey_insertAll {α : Type} {before : List (String × α)} (sorted : SortedByKey before)
    (entries : List (String × α)) : SortedByKey (insertAll before entries) := by
  induction entries generalizing before with
  | nil => exact sorted
  | cons entry rest ih => exact ih (sortedByKey_insertEntry entry.1 entry.2 sorted)

/-- Inserting sorts the entries, so fields that equal the result were sorted before, and then
inserting has changed nothing. -/
theorem insertAll_eq_of_equalFields {entries fields : List (String × Value)}
    (keys : entries.map Prod.fst = fields.map Prod.fst)
    (same : Value.equalFields (insertAll [] entries) fields = true) :
    SortedByKey fields ∧ insertAll [] entries = entries := by
  have sorted : SortedByKey fields := by
    rw [sortedByKey_iff_keys, ← Value.keys_eq_of_equalFields same, ← sortedByKey_iff_keys]
    exact sortedByKey_insertAll List.Pairwise.nil entries
  refine ⟨sorted, insertAll_of_sorted ?_⟩
  rw [List.nil_append, sortedByKey_iff_keys, keys, ← sortedByKey_iff_keys]
  exact sorted

/-! ## Whole values -/

namespace Json.Reader

variable {depth : Nat}

theorem Takes.mono {told weaker : α → Prop} (takes : Takes reader cs told)
    (weakens : ∀ result, told result → weaker result) : Takes reader cs weaker := by
  intro rest ends result later succeeds
  obtain ⟨isLater, holds⟩ := takes rest ends result later succeeds
  exact ⟨isLater, weakens result holds⟩

/-- A value that does not nest has its text taken at any depth. -/
theorem takes_scalar {nested? : Option (Reader Value)} {v : Value} (isScalar : v.nesting = 0) :
    Takes (valueOver nested?) (writeValue v) fun w => Value.FitsIfEqual depth w v := by
  cases v with
  | null => exact reads_null.takes fun _ => ⟨trivial, Nat.zero_le _⟩
  | bool b => exact (reads_bool b).takes fun _ => ⟨trivial, Nat.zero_le _⟩
  | string s => exact (reads_string s).takes fun _ => ⟨trivial, Nat.zero_le _⟩
  | number n =>
      by_cases plain : n.IsPlain
      · exact (reads_number plain).takes fun _ => ⟨plain, Nat.zero_le _⟩
      · rw [writeValue, Number.toJson_of_not_isPlain plain]
        exact reads_null.takes fun same => absurd same Bool.false_ne_true
  | array items => cases isScalar
  | object fields => cases isScalar

theorem takes_value (depth : Nat) (v : Value) :
    Takes (value depth) (writeValue v) fun w => Value.FitsIfEqual depth w v := by
  induction depth generalizing v with
  | zero =>
      by_cases isScalar : v.nesting = 0
      · exact takes_scalar isScalar
      · -- No level is left for an array or an object.
        intro rest _ w later succeeds
        cases v with
        | array items =>
            unfold value valueOver at succeeds
            replace succeeds := (bind_eq (token_eq rfl)).symm.trans succeeds
            cases succeeds
        | object fields =>
            unfold value valueOver at succeeds
            replace succeeds := (bind_eq (token_eq rfl)).symm.trans succeeds
            cases succeeds
        | _ => exact absurd rfl isScalar
  | succ depth ih =>
      by_cases isScalar : v.nesting = 0
      · exact takes_scalar isScalar
      · cases v with
        | array items =>
            rw [writeValue, Value.writeItems_eq_map]
            refine (takes_array fun item _ => ih item).mono ?_
            rintro _ ⟨results, all, rfl⟩ same
            obtain ⟨plain, shallow⟩ := Value.fits_of_equalItems all same
            exact ⟨plain, Nat.succ_le_succ shallow⟩
        | object fields =>
            rw [writeValue, Value.writeFields_eq_map]
            refine (takes_object fun field _ => ih field.2).mono ?_
            rintro _ (⟨n, rfl⟩ | ⟨notNumber, entries, all, rfl⟩) same
            · cases same
            · have keys : entries.map Prod.fst = fields.map Prod.fst := by
                rw [← List.forall₂_eq_eq_eq, List.forall₂_map_left_iff, List.forall₂_map_right_iff]
                exact all.imp fun _ _ here => here.1
              obtain ⟨sorted, unchanged⟩ := insertAll_eq_of_equalFields keys same
              rw [unchanged] at same
              obtain ⟨plain, shallow⟩ := Value.fits_of_equalFields all same
              exact ⟨⟨sorted, notNumber, plain⟩, Nat.succ_le_succ shallow⟩
        | _ => exact absurd rfl isScalar

end Json.Reader

/-- Exactly the values that can be written and nest at most so deep survive. -/
theorem Value.survives_iff {depth : Nat} {v : Value} : v.Survives depth ↔ v.Fits depth := by
  constructor
  · rintro ⟨w, succeeds, same⟩
    unfold Reader.run Value.toJson at succeeds
    rw [String.toList_ofList] at succeeds
    cases read : Reader.value depth (writeValue v) with
    | error fault =>
        rw [read] at succeeds
        cases succeeds
    | ok pair =>
        obtain ⟨found, later⟩ := pair
        rw [read] at succeeds
        rw [← List.append_nil (writeValue v)] at read
        obtain ⟨rfl, fits⟩ := takes_value depth v [] Path.Grammar.Stops.nil found later read
        cases succeeds
        exact fits same
  · rintro ⟨plain, shallow⟩
    exact ⟨v.normal, run_eq_of_reads (reads_value plain shallow), normal_equal plain⟩

end MessageQuery
