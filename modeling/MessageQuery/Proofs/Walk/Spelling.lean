import MessageQuery.Proofs.IntegerText
import MessageQuery.Proofs.Quoting
import MessageQuery.Proofs.Walk.Conjunction

/-!
# Spellings of filter literals

An integer may be written in a filter as a number or between quotes, and with leading zeros. A field
that is declared as a number takes both for the integer, a text takes both for its canonical
spelling, and a flag takes zero and one for its two values. Where nothing is declared, a literal
matches values of its own kind only.
-/

namespace MessageQuery

/-! ## Integers between quotes -/

namespace Path.Grammar

variable {cs : List Char} {n : Int} {quote : Char}

theorem Digits.isDigits {m : Nat} (digits : Digits cs m) : Json.Reader.IsDigits cs where
  ne_nil := digits.ne_nil
  all := digits.isDigit

/-- An integer of a path is also a spelling of it elsewhere. -/
theorem Integer.spells (isInteger : Integer cs n) : Text.Spells n cs := by
  have noBlank : ∀ c ∈ [], Text.isBlank c = true := fun c member =>
    (List.not_mem_nil member).elim
  have value : ∀ {ds : List Char} {m : Nat}, Digits ds m → Text.placeValue ds = m := by
    intro ds m digits
    rw [← Text.natOfDigits_eq_placeValue, digits.natOfDigits_eq]
  cases isInteger with
  | @plain _ m digits =>
      have same : (m : Int) = 1 * Text.placeValue cs := by rw [value digits, one_mul]
      have whole := Text.Spells.mk noBlank .none digits.isDigits noBlank same
      simpa using whole
  | @negative ds m digits =>
      have same : -(m : Int) = -1 * Text.placeValue ds := by rw [value digits, neg_one_mul]
      have whole := Text.Spells.mk noBlank .minus digits.isDigits noBlank same
      simpa using whole

theorem Integer.isIntegerStart (isInteger : Integer cs n) :
    ∀ c ∈ cs, Grammar.isIntegerStart c = true := by
  have ofDigits : ∀ {ds : List Char} {m : Nat}, Digits ds m →
      ∀ c ∈ ds, Grammar.isIntegerStart c = true := by
    intro ds m digits c member
    rw [Grammar.isIntegerStart, digits.isDigit c member, Bool.true_or]
  cases isInteger with
  | plain digits => exact ofDigits digits
  | negative digits => exact List.forall_mem_cons.mpr ⟨rfl, ofDigits digits⟩

theorem isIntegerStart_of_canonical (isCanonical : Text.IsCanonical n cs) :
    ∀ c ∈ cs, Grammar.isIntegerStart c = true := by
  obtain ⟨isDigits, _, _⟩ := isCanonical
  have ofDigits := fun c member => (by
    rw [Grammar.isIntegerStart, isDigits.all c member, Bool.true_or] :
      Grammar.isIntegerStart c = true)
  split
  · exact List.forall_mem_cons.mpr ⟨rfl, ofDigits⟩
  · exact ofDigits

/-- Nothing in a text without backslashes and quotes has to be escaped. -/
theorem quotedBody_self (plain : ∀ c ∈ cs, c ≠ '\\' ∧ c ≠ quote) : QuotedBody quote cs cs := by
  induction cs with
  | nil => exact .nil
  | cons c rest ih =>
      obtain ⟨noEscape, noQuote⟩ := plain c List.mem_cons_self
      exact .plain noEscape noQuote (ih fun d member => plain d (List.mem_cons_of_mem c member))

theorem quoted_of_isIntegerStart (isQuote : quote = '\'' ∨ quote = '"')
    (integral : ∀ c ∈ cs, Grammar.isIntegerStart c = true) :
    Quoted (quote :: (cs ++ [quote])) cs := by
  refine .mk isQuote (quotedBody_self fun c member => ?_)
  have inside := integral c member
  constructor
  · exact ne_of_class inside (by decide)
  · rcases isQuote with rfl | rfl <;> exact ne_of_class inside (by decide)

end Path.Grammar

/-! ## Filters behind a path -/

namespace Path

open Grammar
open Text (byteLength)

/-- A filter with its braces, for any word that is a value. -/
def filterOn (fields : List String) (word : List Char) : String :=
  "\x7b" ++ String.intercalate "." fields ++ "==" ++ String.ofList word ++ "\x7d"

/-- The path with one more filter, under the given text. -/
def andFilter (path : Path) (source : String) (f : Filter) : Path where
  source
  topic := path.topic
  components := path.components ++ [.filter f]
  modifier := none

variable {text : String} {path : Path} {fields : List String} {word : List Char} {value : Operand}

theorem toList_filterOn (fields : List String) (word : List Char) :
    (filterOn fields word).toList =
      '{' :: (List.intercalate ['.'] (fields.map String.toList) ++ '=' :: '=' :: word ++ ['}']) := by
  simp [filterOn]

theorem exists_filterBody (start : Nat) (nonempty : fields ≠ [])
    (named : ∀ name ∈ fields, Identifier name.toList)
    (isValue : ∀ start, ∃ position, FilterValue start word value position) :
    ∃ f : Filter, f.path = fields ∧ f.value = value ∧
      FilterBody start
        (List.intercalate ['.'] (fields.map String.toList) ++ '=' :: '=' :: word) f := by
  have noBlanks : Blanks [] := fun c member => (List.not_mem_nil member).elim
  obtain ⟨position, atPlace⟩ := isValue (start + byteLength
    ([] ++ (List.intercalate ['.'] (fields.map String.toList) ++ ([] ++ '=' :: '=' :: []))))
  have body := FilterBody.mk noBlanks (fieldPath_intercalate nonempty named) noBlanks noBlanks
    atPlace noBlanks
  simp only [List.nil_append, List.append_nil] at body
  refine ⟨_, ?_, ?_, body⟩
  · rfl
  · rfl

/-- Behind a path without a modifier a filter is read for every word that is a value. -/
theorem exists_parse?_filterOn (reads : parse? text = some path) (plain : path.modifier = none)
    (nonempty : fields ≠ []) (named : ∀ name ∈ fields, Identifier name.toList)
    (isValue : ∀ start, ∃ position, FilterValue start word value position)
    (fits : (text ++ filterOn fields word).utf8ByteSize ≤ maxByteLength) :
    ∃ f : Filter, f.path = fields ∧ f.value = value ∧
      parse? (text ++ filterOn fields word) =
        some (path.andFilter (text ++ filterOn fields word) f) := by
  obtain ⟨f, isPath, sameValue, isBody⟩ :=
    exists_filterBody (text.utf8ByteSize + 1) nonempty named isValue
  refine ⟨f, isPath, sameValue, ?_⟩
  have isFilter : Components text.utf8ByteSize (filterOn fields word).toList [.filter f] none := by
    rw [toList_filterOn]
    exact .single (.filter isBody)
  rw [← String.ofList_toList (s := filterOn fields word)] at fits ⊢
  exact parse?_append reads plain isFilter fits

theorem places?_andFilter {source : String} {f : Filter} {literal : Value} {catalog : Catalog}
    {globals : Globals} {body : Value} {places : List Walk.Place}
    (isLiteral : f.value = .literal literal)
    (found : (path.resolve globals).path.places? catalog body = some places) :
    ((path.andFilter source f).resolve globals).path.places? catalog body =
      some (places.flatMap (Walk.filter catalog f)) := by
  obtain ⟨context, isRoot, rfl⟩ := Option.map_eq_some_iff.mp found
  have kept : globals.filter f = f := by
    rw [Globals.filter, isLiteral, Globals.filterValue, ← isLiteral]
  have components : ((path.andFilter source f).resolve globals).path.components =
      (path.resolve globals).path.components ++ [.filter f] := by
    simp only [resolve, andFilter, List.map_append, List.map_cons, List.map_nil, Globals.component,
      kept]
  refine Option.map_eq_some_iff.mpr ⟨context, isRoot, ?_⟩
  rw [components, Walk.steps_append]
  rfl

end Path

/-! ## Matching -/

namespace Number

variable {n : Int}

theorem toDecimal_ofInt (n : Int) : (ofInt n).toDecimal = Text.digitsOfInt n :=
  (isNormal_ofInt n).holds.toDecimal_eq

theorem asUnsigned?_ofInt_eq_iff {m : Nat} (small : m < 2 ^ 64) :
    (ofInt n).asUnsigned? = some m ↔ n = m := by
  rw [asUnsigned?, toInt?_ofInt, Option.bind_some]
  split
  · rw [Option.some.injEq]
    omega
  · constructor
    · rintro ⟨⟩
    · omega

end Number

/-- The two values are of one of the four kinds that can be compared with one another. -/
inductive Value.SameKind : Value → Value → Prop where
  | null : SameKind .null .null
  | bool (a b : Bool) : SameKind (.bool a) (.bool b)
  | number (a b : Number) : SameKind (.number a) (.number b)
  | string (a b : String) : SameKind (.string a) (.string b)

namespace Walk

open Path (Filter)

variable {catalog : Catalog} {place : Place} {f g : Filter}

/-- Wherever the fields lead from the places at which a filter looks, there is a value that is
declared as of the given kind and is of the given form. Where they lead nowhere, nothing is asked. -/
def Holds (catalog : Catalog) (fields : List String) (kind : ScalarKind) (form : Value → Prop)
    (place : Place) : Prop :=
  ∀ candidate ∈ candidates catalog place, ∀ found, field? catalog fields candidate = some found →
    found.context = .scalar kind ∧ form found.value

theorem matchesFilter_of_field? {literal : Value} {found : Place}
    (isLiteral : f.value = .literal literal) (reached : field? catalog f.path place = some found) :
    matchesFilter catalog f place = matchesLiteral found.context found.value literal := by
  simp only [matchesFilter, isLiteral, reached]

theorem matchesFilter_of_field?_eq_none (missing : field? catalog f.path place = none) :
    matchesFilter catalog f place = false := by
  rw [matchesFilter, missing]
  cases f.value <;> rfl

/-- Filters that agree on all values of the declared kind and form keep the same. -/
theorem filter_eq_of_holds {kind : ScalarKind} {form : Value → Prop} {first second : Value}
    (samePath : g.path = f.path) (isFirst : f.value = .literal first)
    (isSecond : g.value = .literal second) (holds : Holds catalog f.path kind form place)
    (agree : ∀ value, form value →
      matchesLiteral (.scalar kind) value first = matchesLiteral (.scalar kind) value second) :
    filter catalog f place = filter catalog g place := by
  rw [filter_eq, filter_eq]
  apply List.filter_congr
  intro candidate member
  cases reached : field? catalog f.path candidate with
  | none =>
      rw [matchesFilter_of_field?_eq_none reached,
        matchesFilter_of_field?_eq_none (samePath ▸ reached)]
  | some found =>
      obtain ⟨isContext, isForm⟩ := holds candidate member found reached
      rw [matchesFilter_of_field? isFirst reached,
        matchesFilter_of_field? isSecond (samePath ▸ reached), isContext]
      exact agree found.value isForm

theorem matchesLiteral_spelled {digits : List Char} {n : Int} (spells : Text.Spells n digits)
    (a : Number) :
    matchesLiteral (.scalar .number) (.number a) (.ofInt n) =
      matchesLiteral (.scalar .number) (.number a) (.string (String.ofList digits)) := by
  simp only [Value.ofInt, matchesLiteral, String.toList_ofList, spells.parse?_eq]

theorem matchesLiteral_canonical {canonical : List Char} {n : Int}
    (isCanonical : Text.IsCanonical n canonical) (s : String) :
    matchesLiteral (.scalar .text) (.string s) (.ofInt n) =
      matchesLiteral (.scalar .text) (.string s) (.string (String.ofList canonical)) := by
  simp only [Value.ofInt, matchesLiteral, Number.toDecimal_ofInt, Text.isCanonical_iff.mp isCanonical]

theorem matchesLiteral_flag_iff {n : Int} {b : Bool} :
    matchesLiteral (.scalar .bool) (.bool b) (.ofInt n) = true ↔
      n = 1 ∧ b = true ∨ n = 0 ∧ b = false := by
  simp only [Value.ofInt, matchesLiteral, beq_iff_eq]
  cases b with
  | true =>
      rw [Bool.toNat_true, Number.asUnsigned?_ofInt_eq_iff (by decide)]
      simp
  | false =>
      rw [Bool.toNat_false, Number.asUnsigned?_ofInt_eq_iff (by decide)]
      simp

/-- A filter for an integer keeps one of the two values of a flag, or neither. -/
theorem mem_filter_flag_iff {candidate found : Place} {n : Int} {b : Bool}
    (isLiteral : f.value = .literal (.ofInt n)) (member : candidate ∈ candidates catalog place)
    (reached : field? catalog f.path candidate = some found) (isContext : found.context = .scalar .bool)
    (isFlag : found.value = .bool b) :
    candidate ∈ filter catalog f place ↔ n = 1 ∧ b = true ∨ n = 0 ∧ b = false := by
  rw [filter_eq, List.mem_filter, matchesFilter_of_field? isLiteral reached, isContext, isFlag,
    matchesLiteral_flag_iff]
  exact and_iff_right member

/-- Only a declared type makes a value match a literal of another kind. -/
theorem sameKind_of_matchesLiteral {context : Context} (undeclared : ∀ kind, context ≠ .scalar kind)
    {value literal : Value} (holds : matchesLiteral context value literal = true) :
    value.SameKind literal := by
  cases context with
  | scalar kind => exact absurd rfl (undeclared kind)
  | message | time | array | untyped =>
      cases value <;> cases literal <;> first | constructor | simp [matchesLiteral] at holds

theorem sameKind_of_mem_filter {candidate found : Place} {literal : Value}
    (isLiteral : f.value = .literal literal) (kept : candidate ∈ filter catalog f place)
    (reached : field? catalog f.path candidate = some found)
    (undeclared : ∀ kind, found.context ≠ .scalar kind) : found.value.SameKind literal := by
  rw [filter_eq, List.mem_filter, matchesFilter_of_field? isLiteral reached] at kept
  exact sameKind_of_matchesLiteral undeclared kept.2

end Walk

namespace Path

open Grammar

/-- The values that a path addresses in a message body under given variables, with their names. -/
def found? (path : Path) (catalog : Catalog) (globals : Globals) (body : Value) :
    Option (List (Value × Option String)) :=
  ((path.resolve globals).path.items? catalog body).map
    (·.map fun item => (item.value, item.constantName?))

theorem found?_andFilter {path : Path} {source : String} {f : Filter} {literal : Value}
    {catalog : Catalog} {globals : Globals} {body : Value} {places : List Walk.Place}
    (isLiteral : f.value = .literal literal)
    (found : (path.resolve globals).path.places? catalog body = some places) :
    (path.andFilter source f).found? catalog globals body =
      some ((places.flatMap (Walk.filter catalog f)).map fun place =>
        (place.value, Walk.constantName? place)) := by
  rw [found?, items?_eq_places?, places?_andFilter isLiteral found, Option.map_some, Option.map_some,
    List.map_map]
  rfl

/-- Filters behind a path find the same if they agree on all that the fields hold. -/
theorem found?_eq_of_holds {path : Path} {source other : String} {f g : Filter}
    {first second : Value} {kind : ScalarKind} {form : Value → Prop} {catalog : Catalog}
    {globals : Globals} {body : Value} {places : List Walk.Place} (sameFields : g.path = f.path)
    (isFirst : f.value = .literal first) (isSecond : g.value = .literal second)
    (found : (path.resolve globals).path.places? catalog body = some places)
    (holds : ∀ place ∈ places, Walk.Holds catalog f.path kind form place)
    (agree : ∀ value, form value → Walk.matchesLiteral (.scalar kind) value first =
      Walk.matchesLiteral (.scalar kind) value second) :
    (path.andFilter source f).found? catalog globals body =
      (path.andFilter other g).found? catalog globals body := by
  rw [found?_andFilter isFirst found, found?_andFilter isSecond found]
  congr 2
  apply List.flatMap_congr
  intro place member
  exact Walk.filter_eq_of_holds sameFields isFirst isSecond (holds place member) agree

/-- A filter for an integer is read behind any path without a modifier, however the integer is
spelled, and so are the filters for its spelling and for its canonical spelling between quotes.

Where the fields are declared as numbers and the message holds numbers there, it makes no difference
whether the spelling is quoted. Where they are declared as texts and hold texts, the filter for the
integer finds what the filter for its canonical spelling finds. Where they are declared as a flag
and hold one, the filter keeps true for one and false for zero and nothing else. And no filter for a
literal keeps a value of another kind in a field of which no single type is declared. -/
theorem integer_spellings {text : String} {path : Path} {fields : List String}
    {digits canonical : List Char} {n : Int} {quote : Char} (reads : parse? text = some path)
    (plain : path.modifier = none) (nonempty : fields ≠ [])
    (named : ∀ name ∈ fields, Identifier name.toList) (isQuote : quote = '\'' ∨ quote = '"')
    (isInteger : Integer digits n) (isCanonical : Text.IsCanonical n canonical)
    (fits : ∀ word ∈ [digits, quote :: (digits ++ [quote]), quote :: (canonical ++ [quote])],
      (text ++ filterOn fields word).utf8ByteSize ≤ 2 ^ 32 - 3) :
    ∃ forInteger forSpelling forCanonical : Path,
      parse? (text ++ filterOn fields digits) = some forInteger ∧
      parse? (text ++ filterOn fields (quote :: (digits ++ [quote]))) = some forSpelling ∧
      parse? (text ++ filterOn fields (quote :: (canonical ++ [quote]))) = some forCanonical ∧
      ∃ f : Filter, f.path = fields ∧ forInteger.components = path.components ++ [.filter f] ∧
      ∀ catalog globals body places,
        (path.resolve globals).path.places? catalog body = some places →
        ((∀ place ∈ places, Walk.Holds catalog fields .number (∃ a, · = .number a) place) →
          forInteger.found? catalog globals body = forSpelling.found? catalog globals body) ∧
        ((∀ place ∈ places, Walk.Holds catalog fields .text (∃ s, · = .string s) place) →
          forInteger.found? catalog globals body = forCanonical.found? catalog globals body) ∧
        (forInteger.found? catalog globals body =
          some ((places.flatMap (Walk.filter catalog f)).map fun place =>
            (place.value, Walk.constantName? place)) ∧
          ∀ place ∈ places, ∀ candidate ∈ Walk.candidates catalog place, ∀ found b,
            Walk.field? catalog fields candidate = some found →
            found.context = .scalar .bool → found.value = .bool b →
            (candidate ∈ Walk.filter catalog f place ↔ n = 1 ∧ b = true ∨ n = 0 ∧ b = false)) ∧
        ∀ g : Filter, ∀ literal, g.value = .literal literal → ∀ place candidate found,
          candidate ∈ Walk.filter catalog g place →
          Walk.field? catalog g.path candidate = some found →
          (∀ kind, found.context ≠ .scalar kind) → found.value.SameKind literal := by
  have fitsPlain := fits _ List.mem_cons_self
  have fitsSpelling := fits _ (List.mem_cons_of_mem _ List.mem_cons_self)
  have fitsCanonical := fits _
    (List.mem_cons_of_mem _ (List.mem_cons_of_mem _ List.mem_cons_self))
  have spelling := quoted_of_isIntegerStart isQuote isInteger.isIntegerStart
  have shortest := quoted_of_isIntegerStart isQuote (isIntegerStart_of_canonical isCanonical)
  obtain ⟨f, rfl, isLiteral, readsInteger⟩ := exists_parse?_filterOn reads plain nonempty named
    (fun start => ⟨start, .bound (.integer isInteger)⟩) fitsPlain
  obtain ⟨g, sameFields, isSpelling, readsSpelling⟩ :=
    exists_parse?_filterOn reads plain nonempty named
      (fun start => ⟨start + 1, .quoted spelling⟩) fitsSpelling
  obtain ⟨h, fieldsAgain, isShortest, readsCanonical⟩ :=
    exists_parse?_filterOn reads plain nonempty named
      (fun start => ⟨start + 1, .quoted shortest⟩) fitsCanonical
  refine ⟨_, _, _, readsInteger, readsSpelling, readsCanonical, f, rfl, rfl, ?_⟩
  intro catalog globals body places found
  refine ⟨fun holds => ?_, fun holds => ?_, ⟨found?_andFilter isLiteral found, ?_⟩, ?_⟩
  · refine found?_eq_of_holds sameFields isLiteral isSpelling found holds ?_
    rintro _ ⟨a, rfl⟩
    exact Walk.matchesLiteral_spelled isInteger.spells a
  · refine found?_eq_of_holds fieldsAgain isLiteral isShortest found holds ?_
    rintro _ ⟨s, rfl⟩
    exact Walk.matchesLiteral_canonical isCanonical s
  · intro place _ candidate member part b reached isContext isFlag
    exact Walk.mem_filter_flag_iff isLiteral member reached isContext isFlag
  · intro other literal isOther place candidate part kept reached undeclared
    exact Walk.sameKind_of_mem_filter isOther kept reached undeclared

def gaugeDatatype : Datatype :=
  ⟨[⟨"level", "float64", false, false, none⟩, ⟨"on", "bool", false, false, none⟩]⟩

def gaugeCatalog : Catalog :=
  .ofLists [("/a", "Gauges")] [("Gauge", gaugeDatatype), ("Gauges", ⟨[.array "all" "Gauge"]⟩)]

def gauge (level : Number) (on : Bool) : Value :=
  .object [("level", .number level), ("on", .bool on)]

def gauges : Value :=
  .array [gauge (.int 0) false, gauge (.big 0x10000000000000000) true]

def gaugeBody : Value :=
  .object [("all", gauges)]

def gaugePlace (level : Number) (on : Bool) : Walk.Place :=
  ⟨gauge level on, .message gaugeDatatype, some ⟨[.array "all" "Gauge"]⟩⟩

def gaugesPlace : Walk.Place :=
  ⟨gauges, .array "Gauge", some ⟨[.array "all" "Gauge"]⟩⟩

/-- Zero is spelled with a sign and two digits. -/
theorem integer_spellings_zero :
    ∃ path byLevel bySpelling byFlag f,
      parse? "/a.all" = some path ∧
      parse? "/a.all\x7blevel==-00\x7d" = some byLevel ∧
      parse? "/a.all\x7blevel=='-00'\x7d" = some bySpelling ∧
      bySpelling.found? gaugeCatalog .empty gaugeBody = some [(gauge (.int 0) false, none)] ∧
      parse? "/a.all\x7bon==-00\x7d" = some byFlag ∧
      byFlag.components = path.components ++ [.filter f] ∧
      gaugePlace (.int 0) false ∈ Walk.filter gaugeCatalog f gaugesPlace ∧
      gaugePlace (.big 0x10000000000000000) true ∉ Walk.filter gaugeCatalog f gaugesPlace := by
  have zeros : Integer "-00".toList 0 :=
    .negative (.more (.one (isDigit_iff.mpr rfl)) (isDigit_iff.mpr rfl))
  have zero : Text.IsCanonical 0 ['0'] := Text.isCanonical_iff.mpr (by decide +kernel)
  have level : Identifier "level".toList := identifier_cons rfl rfl
  have flag : Identifier "on".toList := identifier_cons rfl rfl
  have reads : parse? "/a.all" = some ⟨"/a.all", "/a", [.name "all"], none⟩ := rfl
  obtain ⟨byLevel, bySpelling, _, readsLevel, readsSpelling, _, _, _, _, levels⟩ :=
    integer_spellings reads rfl (List.cons_ne_nil "level" []) (List.forall_mem_singleton.mpr level)
      (.inl rfl) zeros zero (by decide +kernel)
  obtain ⟨byFlag, _, _, readsFlag, _, _, f, _, isFilter, flags⟩ :=
    integer_spellings reads rfl (List.cons_ne_nil "on" []) (List.forall_mem_singleton.mpr flag)
      (.inl rfl) zeros zero (by decide +kernel)
  refine ⟨_, byLevel, bySpelling, byFlag, f, reads, readsLevel, readsSpelling, ?_, readsFlag,
    isFilter, ?_⟩
  · have numbers : Walk.Holds gaugeCatalog ["level"] .number (∃ a, · = .number a) gaugesPlace := by
      rintro _ (_ | ⟨_, _ | ⟨_, ⟨⟩⟩⟩) _ ⟨⟩
      · exact ⟨rfl, _, rfl⟩
      · exact ⟨rfl, _, rfl⟩
    have same := (levels gaugeCatalog .empty gaugeBody [gaugesPlace] rfl).1
      (List.forall_mem_singleton.mpr numbers)
    rw [← same]
    cases readsLevel
    rfl
  · have kept := (flags gaugeCatalog .empty gaugeBody [gaugesPlace] rfl).2.2.1.2 gaugesPlace
      List.mem_cons_self
    constructor
    · exact (kept (gaugePlace (.int 0) false) List.mem_cons_self _ false rfl rfl rfl).mpr
        (.inr ⟨rfl, rfl⟩)
    · refine mt (kept (gaugePlace (.big 0x10000000000000000) true)
        (List.mem_cons_of_mem _ List.mem_cons_self) _ true rfl rfl rfl).mp ?_
      simp

end Path

end MessageQuery
