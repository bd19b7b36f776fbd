import MessageQuery.Proofs.Json.Values

/-!
# Records read back

Words, texts and values are read in the shapes that name them. A record is read back from its
members in declared order, where fields with a default may be left out: the members read so far
have the data of the fields passed so far, and none of the fields that are still to come.
-/

namespace MessageQuery.Json.Reader

open Document

variable {depth bits n : Nat} {shape : Shape} {fields whole : Fields} {closed : Bool}
  {cs : List Char} {datum : Datum}

/-! ## Words -/

theorem natOfDigits_le_append (first second : List Char) :
    Text.natOfDigits first ≤ Text.natOfDigits (first ++ second) := by
  rw [natOfDigits_append]
  exact Nat.le_add_right_of_le (Nat.le_mul_of_pos_right _ (Nat.pow_pos (by decide)))

/-- Digits that spell a 64-bit word are taken whole. -/
theorem significand_eq {passed cs : List Char}
    (fits : Text.natOfDigits (passed ++ cs) < 0x10000000000000000) :
    significand (Text.natOfDigits passed) cs = (Text.natOfDigits (passed ++ cs), 0) := by
  induction cs generalizing passed with
  | nil => rw [List.append_nil, significand]
  | cons c rest ih =>
      rw [List.append_cons] at fits ⊢
      have below := Nat.lt_of_le_of_lt (natOfDigits_le_append (passed ++ [c]) rest) fits
      unfold significand
      dsimp only
      rw [← Text.natOfDigits_concat, if_pos below]
      exact ih fits

theorem toInt?_one : (Binary64.ofDecimal false 1 0).toInt? = some 1 := by
  decide +kernel

/-- A word lies far below the end of the binary64 range. -/
theorem exceedsBinary64_integerNumeral (fits : n < 2 ^ 64) :
    exceedsBinary64 (integerNumeral n) = false := by
  obtain ⟨a, _, isInt, small⟩ :=
    Binary64.exists_toInt?_ofInt (by decide : 53 ≤ 64) (by decide) fits
  obtain ⟨_, isFinite, _⟩ :=
    Binary64.exists_toInt?_ofInt (by decide : 53 ≤ 65) (by decide)
      (Nat.lt_of_le_of_lt small (by decide))
  have spelled : Text.natOfDigits ([] ++ (integerNumeral n).whole) = n :=
    Text.natOfDigits_digitsOfNat n
  have all := @significand_eq [] (integerNumeral n).whole (by rw [spelled]; exact fits)
  rw [spelled] at all
  have taken : significand 0 (integerNumeral n).whole = (n, 0) := all
  have nothing : significand n [] = (n, 0) := rfl
  have noFraction : (integerNumeral n).fraction.getD [] = [] := rfl
  have noPower : ((integerNumeral n).exponent.bind Text.intOfDigits?).getD 0 = 0 := rfl
  have unscaled : ((0 : Nat) : Int) + (0 : Nat) - ([] : List Char).length + 0 = 0 := rfl
  unfold exceedsBinary64
  rw [noFraction, noPower, taken]
  dsimp only
  rw [nothing, unscaled]
  split
  · rfl
  · rw [if_neg (by decide), isInt, toInt?_one]
    dsimp only
    rw [mul_one, isFinite]
    rfl

theorem wordOf_integerNumeral (fits : n < 2 ^ bits) (narrow : bits ≤ 64) :
    wordOf bits (integerNumeral n) cs = .ok (n, cs) := by
  have fitsWord : n < 2 ^ 64 :=
    Nat.lt_of_lt_of_le fits (Nat.pow_le_pow_right (by decide) narrow)
  have spelled : Text.natOfDigits (integerNumeral n).whole = n := Text.natOfDigits_digitsOfNat n
  have below : decide (Nat.pow 2 bits ≤ n) = false := decide_eq_false (Nat.not_le_of_lt fits)
  unfold wordOf
  rw [exceedsBinary64_integerNumeral fitsWord, spelled]
  dsimp only
  rw [below]
  rfl

theorem reads_unsigned (fits : n < 2 ^ bits) (narrow : bits ≤ 64) :
    Reads (unsigned bits) (Text.digitsOfNat n) n := by
  intro rest ends
  have wellFormed := wellFormed_integerNumeral n
  have isText : (integerNumeral n).text = Text.digitsOfNat n := text_integerNumeral n
  obtain ⟨c, tail, isCons, starts⟩ := wellFormed.exists_head
  have reads := numeral_eq wellFormed (ends.stops (by decide))
  rw [← isText]
  unfold unsigned
  rw [isCons, List.cons_append, bind_eq (token_eq (isSpace_of_startsNumber starts)),
    ← List.cons_append, ← isCons]
  refine (congrFun (if_pos starts) _).trans ?_
  rw [bind_eq reads]
  exact wordOf_integerNumeral fits narrow

/-! ## Shapes -/

theorem Reads.map {α β : Type} {reader : Reader α} {a : α} (f : α → β) (reads : Reads reader cs a) :
    Reads (do return f (← reader)) cs (f a) := by
  intro rest ends
  rw [bind_eq (reads rest ends)]
  rfl

theorem reads_text (s : String) : Reads (shaped .text depth) (writeString s) (.text s) := by
  have reads : Reads text (writeString s) s := by
    intro rest _
    unfold text
    refine (bind_eq (token_eq rfl)).trans ?_
    exact (congrFun (if_pos rfl) _).trans (string_eq s rest)
  unfold shaped
  exact reads.map Datum.text

theorem reads_word (fits : n < 2 ^ bits) (narrow : bits ≤ 64) :
    Reads (shaped (.word bits) depth) (Text.digitsOfNat n) (.word n) := by
  unfold shaped
  exact (reads_unsigned fits narrow).map Datum.word

theorem reads_plainValue {v : Value} (plain : v.IsPlain) (shallow : v.nesting ≤ depth) :
    Reads (shaped .value depth) (writeValue v) (.value v.normal) := by
  unfold shaped
  exact (reads_value plain shallow).map Datum.value

/-- What does not start like null is read in the shape itself. -/
theorem reads_optional {c : Char} {tail : List Char} (visible : isSpace c = false)
    (notNull : c ≠ 'n') (reads : Reads (shaped shape depth) (c :: tail) datum) :
    Reads (shaped (.optional shape) depth) (c :: tail) datum := by
  intro rest ends
  unfold shaped
  rw [List.cons_append, bind_eq (token_eq visible), if_neg notNull, ← List.cons_append]
  exact reads rest ends

theorem reads_optionalWord (fits : n < 2 ^ bits) (narrow : bits ≤ 64) :
    Reads (shaped (.optional (.word bits)) depth) (Text.digitsOfNat n) (.word n) := by
  have reads := @reads_word depth bits n fits narrow
  have starts : ∃ c tail, Text.digitsOfNat n = c :: tail ∧ c.isDigit = true := by
    obtain ⟨c, tail, isCons⟩ := List.exists_cons_of_ne_nil (Text.digitsOfNat_ne_nil n)
    exact ⟨c, tail, isCons, Text.digitsOfNat_isDigit n c (isCons ▸ List.mem_cons_self)⟩
  obtain ⟨c, tail, isCons, digit⟩ := starts
  rw [isCons] at reads ⊢
  apply reads_optional _ _ reads
  · exact isSpace_of_startsNumber (by rw [startsNumber, digit, Bool.or_true])
  · rintro rfl
    cases digit

theorem reads_flag (b : Bool) : Reads (shaped .flag depth) (writeBool b) (.flag b) := by
  have reads : Reads flag (writeBool b) b := by
    intro rest _
    unfold flag
    cases b with
    | true =>
        refine (bind_eq (token_eq rfl)).trans ?_
        exact dropWord_eq true 't' "rue".toList rest
    | false =>
        refine (bind_eq (token_eq rfl)).trans ?_
        exact dropWord_eq false 'f' "alse".toList rest
  unfold shaped
  exact reads.map Datum.flag

theorem reads_absent : Reads (shaped (.optional shape) depth) "null".toList .absent := by
  intro rest _
  unfold shaped
  refine (bind_eq (token_eq rfl)).trans ?_
  exact dropWord_eq Datum.absent 'n' "ull".toList rest

/-- A value that is not null is told from null by its first character. -/
theorem reads_optionalValue {v : Value} (plain : v.IsPlain) (shallow : v.nesting ≤ depth)
    (notNull : v ≠ .null) :
    Reads (shaped (.optional .value) depth) (writeValue v) (.value v.normal) := by
  have reads := reads_plainValue plain shallow
  obtain ⟨c, tail, isCons, visible, -, -, isNull⟩ := exists_head_writeValue v
  rw [isCons] at reads ⊢
  exact reads_optional visible (fun same => notNull (isNull plain same)) reads

theorem reads_list {texts : List (List Char)} {data : List Datum}
    (all : List.Forall₂ (fun text datum => StartsElement text ∧
      Reads (shaped shape depth) text datum) texts data) :
    Reads (shaped (.list shape) (depth + 1)) (writeArray texts) (.list data) := by
  intro rest _
  rw [writeArray_append]
  unfold shaped
  rw [bind_eq (token_eq rfl), if_pos rfl]
  refine (bind_eq (drop_cons '[' _)).trans ?_
  refine (bind_eq (arrayTail_eq all rest)).trans ?_
  rfl

theorem reads_dict {members : List (String × List Char)} {entries : List (String × Datum)}
    (all : List.Forall₂ (fun member entry => member.1 = entry.1 ∧
      Reads (shaped shape depth) member.2 entry.2) members entries) :
    Reads (shaped (.dict shape) (depth + 1)) (writeObject members)
      (.dict (insertAll [] entries)) := by
  intro rest _
  rw [writeObject_append]
  unfold shaped
  rw [bind_eq (token_eq rfl), if_pos rfl]
  refine (bind_eq (drop_cons '\x7b' _)).trans ?_
  refine (bind_eq (objectTail_first (readsMembers_dict all []) rest)).trans ?_
  rfl

theorem startsElement_writeObject (members : List (String × List Char)) :
    StartsElement (writeObject members) :=
  ⟨'\x7b', _, rfl, rfl, by decide⟩

/-! ## Records -/

/-- One member of a record, after those that were given before it. -/
def recordMember (fields : Fields) (closed : Bool) (depth : Nat) (given : List (String × Datum)) :
    Reader (List (String × Datum)) := do
  let key ← string
  if (lookupEntry key given).isSome then throw (.duplicateField key)
  else if fields.names.contains key then
    colon
    return (key, ← member fields depth key) :: given
  else if closed then throw (.unknownField key fields.names)
  else
    colon
    skippedValue ((← get).length + 1)
    return given

theorem shaped_record (cs : List Char) :
    shaped (.record fields closed) (depth + 1) ('\x7b' :: cs) =
      (do
        match fields.complete (← objectTail (recordMember fields closed depth) true []) with
        | .ok items => return .list items
        | .error name => throw (.missingField name) : Reader Datum) cs := by
  unfold shaped
  rw [bind_eq (token_eq rfl)]
  rfl

/-- A declared field that was not given before is read in its shape. -/
theorem reads_recordMember {given : List (String × Datum)} {key : String}
    (isNew : lookupEntry key given = none) (declared : key ∈ fields.names)
    (reads : Reads (member fields depth key) cs datum) :
    Reads (recordMember fields closed depth given) (memberText (key, cs))
      ((key, datum) :: given) := by
  intro rest ends
  have unused : ¬(lookupEntry key given).isSome = true := by
    rw [isNew]
    exact Bool.false_ne_true
  have contained : fields.names.contains key = true := List.contains_iff_mem.mpr declared
  unfold recordMember memberText
  rw [List.append_assoc, List.cons_append, bind_eq (string_eq key _), if_neg unused,
    if_pos contained, bind_eq colon_eq, bind_eq (reads rest ends)]
  rfl

/-- Members in declared order and the data of all fields; a field with a default may be left
out. -/
inductive Gives (depth : Nat) : Fields → List (String × List Char) → List Datum → Prop where
  | nil : Gives depth .nil [] []
  | given {name : String} {shape : Shape} {default? : Option Datum} {rest : Fields}
      {text : List Char} {datum : Datum} {members : List (String × List Char)} {data : List Datum}
      (reads : Reads (shaped shape depth) text datum) (later : Gives depth rest members data) :
      Gives depth (.cons name shape default? rest) ((name, text) :: members) (datum :: data)
  | left {name : String} {shape : Shape} {datum : Datum} {rest : Fields}
      {members : List (String × List Char)} {data : List Datum}
      (later : Gives depth rest members data) :
      Gives depth (.cons name shape (some datum) rest) members (datum :: data)

/-- The fields are found in the whole record. -/
def IsPart (depth : Nat) (fields whole : Fields) : Prop :=
  ∀ name ∈ fields.names,
    name ∈ whole.names ∧ member whole depth name = member fields depth name

theorem IsPart.later {name : String} {default? : Option Datum} {rest : Fields}
    (part : IsPart depth (.cons name shape default? rest) whole) (notLater : name ∉ rest.names) :
    IsPart depth rest whole := by
  intro other inRest
  obtain ⟨declared, same⟩ := part other (List.mem_cons_of_mem _ inRest)
  refine ⟨declared, same.trans ?_⟩
  rw [member, if_neg (ne_of_mem_of_not_mem inRest notLater)]

/-- The members of the fields that have not been given yet. -/
theorem Gives.readsMembers {members : List (String × List Char)} {data : List Datum}
    (gives : Gives depth fields members data) (distinct : fields.names.Nodup)
    {before : List (String × Datum)}
    (isNew : ∀ name ∈ fields.names, lookupEntry name before = none)
    (part : IsPart depth fields whole) :
    ∃ after, ReadsMembers (recordMember whole closed depth) before (members.map memberText) after ∧
      fields.complete after = .ok data ∧
      ∀ name, name ∉ fields.names → lookupEntry name after = lookupEntry name before := by
  induction gives generalizing before with
  | nil => exact ⟨before, .nil before, rfl, fun _ _ => rfl⟩
  | @given name shape default? rest text datum members data reads later ih =>
      obtain ⟨notLater, restDistinct⟩ := List.nodup_cons.mp distinct
      obtain ⟨declared, same⟩ := part name List.mem_cons_self
      have stillNew : ∀ other ∈ rest.names, lookupEntry other ((name, datum) :: before) = none := by
        intro other inRest
        rw [lookupEntry, if_neg (ne_of_mem_of_not_mem inRest notLater)]
        exact isNew other (List.mem_cons_of_mem _ inRest)
      have readsHere : Reads (member whole depth name) text datum := by
        rw [same, member, if_pos rfl]
        exact reads
      obtain ⟨after, readsLater, isComplete, kept⟩ :=
        ih restDistinct stillNew (part.later notLater)
      refine ⟨after, .cons rfl (reads_recordMember (isNew name List.mem_cons_self) declared
        readsHere) readsLater, ?_, ?_⟩
      · have given : lookupEntry name after = some datum := by
          rw [kept name notLater, lookupEntry, if_pos rfl]
        rw [Fields.complete, given, isComplete]
        rfl
      · intro other notAmong
        rw [kept other (List.not_mem_of_not_mem_cons notAmong), lookupEntry,
          if_neg (List.ne_of_not_mem_cons notAmong)]
  | @left name shape datum rest members data later ih =>
      obtain ⟨notLater, restDistinct⟩ := List.nodup_cons.mp distinct
      obtain ⟨after, readsLater, isComplete, kept⟩ := ih restDistinct
        (fun other inRest => isNew other (List.mem_cons_of_mem _ inRest)) (part.later notLater)
      refine ⟨after, readsLater, ?_, fun other notAmong =>
        kept other (List.not_mem_of_not_mem_cons notAmong)⟩
      have notGiven : lookupEntry name after = none := by
        rw [kept name notLater, isNew name List.mem_cons_self]
      rw [Fields.complete, notGiven, isComplete]
      rfl

theorem reads_record {members : List (String × List Char)} {data : List Datum}
    (gives : Gives depth fields members data) (distinct : fields.names.Nodup) :
    Reads (shaped (.record fields closed) (depth + 1)) (writeObject members) (.list data) := by
  intro rest _
  obtain ⟨after, reads, isComplete, _⟩ := @Gives.readsMembers depth fields fields closed _ _
    gives distinct [] (fun _ _ => rfl) fun _ inFields => ⟨inFields, rfl⟩
  rw [writeObject_append, shaped_record, bind_eq (objectTail_first reads rest), isComplete]
  rfl

end MessageQuery.Json.Reader
