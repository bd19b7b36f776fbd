import MessageQuery.Globals
import MessageQuery.Proofs.Path.Composition
import MessageQuery.Proofs.Walk.Location

/-!
# Quoting texts in filters

Any text can be written between quotes: a backslash goes before every backslash and every quote,
and nothing else is changed. A filter that is written so and put behind a path is read as one
filter for exactly that text. On a message whose datatype declares the field as a text, it keeps
the message if and only if the field holds the text.
-/

namespace MessageQuery

namespace Path

open Cursor Grammar
open Text (byteLength)

/-! ## Writing filters -/

def escape (cs : List Char) : List Char :=
  cs.flatMap fun c => if isEscapable c then ['\\', c] else [c]

def quoted (quote : Char) (spelled : String) : List Char :=
  quote :: (escape spelled.toList ++ [quote])

/-- The text between the braces of a filter for a text. -/
def equation (fields : List String) (quote : Char) (spelled : String) : List Char :=
  List.intercalate ['.'] (fields.map String.toList) ++ '=' :: '=' :: quoted quote spelled

/-- The filter with its braces. -/
def filterText (fields : List String) (quote : Char) (spelled : String) : String :=
  "\x7b" ++ String.intercalate "." fields ++ "==" ++ String.ofList (quoted quote spelled) ++ "\x7d"

/-- What the text of a filter is read as if its brace is at byte `start`. -/
def textFilter (start : Nat) (fields : List String) (quote : Char) (spelled : String) : Filter where
  path := fields
  value := .literal (.string spelled)
  written := String.ofList (equation fields quote spelled)
  namePosition := start + 1
  valuePosition :=
    start + 1 + byteLength (List.intercalate ['.'] (fields.map String.toList) ++ ['=', '=']) + 1

variable {fields : List String} {quote : Char}

theorem quotedBody_escape (isQuote : quote = '\'' ∨ quote = '"') (cs : List Char) :
    QuotedBody quote (escape cs) cs := by
  induction cs with
  | nil => exact .nil
  | cons c rest ih =>
      rw [escape, List.flatMap_cons]
      by_cases escapable : isEscapable c = true
      · rw [if_pos escapable]
        exact .escaped (isEscapable_iff.mp escapable) ih
      · have plain : ¬(c = '\\' ∨ c = '\'' ∨ c = '"') := fun among =>
          escapable (isEscapable_iff.mpr among)
        rw [if_neg escapable]
        refine .plain (fun isEscape => plain (.inl isEscape)) (fun same => plain ?_) ih
        rw [same]
        exact .inr isQuote

theorem fieldPath_intercalate (nonempty : fields ≠ [])
    (named : ∀ name ∈ fields, Identifier name.toList) :
    FieldPath (List.intercalate ['.'] (fields.map String.toList)) fields := by
  induction fields with
  | nil => exact absurd rfl nonempty
  | cons name rest ih =>
      have isName := named name List.mem_cons_self
      have named' : ∀ other ∈ rest, Identifier other.toList :=
        fun other member => named other (List.mem_cons_of_mem name member)
      have noBlanks : Blanks [] := fun c member => (List.not_mem_nil member).elim
      cases rest with
      | nil =>
          have single := FieldPath.last isName
          rw [String.ofList_toList] at single
          simpa using single
      | cons next later =>
          have longer := FieldPath.more isName noBlanks noBlanks (ih (List.cons_ne_nil _ _) named')
          rw [String.ofList_toList] at longer
          simpa using longer

theorem filterBody_equation (start : Nat) (nonempty : fields ≠ [])
    (named : ∀ name ∈ fields, Identifier name.toList) (isQuote : quote = '\'' ∨ quote = '"')
    (spelled : String) :
    FilterBody (start + 1) (equation fields quote spelled)
      (textFilter start fields quote spelled) := by
  have noBlanks : Blanks [] := fun c member => (List.not_mem_nil member).elim
  have isQuoted : Quoted (quoted quote spelled) spelled.toList :=
    .mk isQuote (quotedBody_escape isQuote _)
  have body : FilterBody (start + 1) _ _ := .mk noBlanks (fieldPath_intercalate nonempty named)
    noBlanks noBlanks (.quoted isQuoted) noBlanks
  simp only [List.nil_append, List.append_nil, String.ofList_toList] at body
  exact body

theorem toList_filterText (fields : List String) (quote : Char) (spelled : String) :
    (filterText fields quote spelled).toList = '{' :: (equation fields quote spelled ++ ['}']) := by
  simp [filterText, equation, quoted]

/-- The path with a filter for a text behind it. -/
def filteredBy (path : Path) (fields : List String) (quote : Char) (spelled : String) : Path where
  source := path.source ++ filterText fields quote spelled
  topic := path.topic
  components :=
    path.components ++ [.filter (textFilter path.source.utf8ByteSize fields quote spelled)]
  modifier := none

theorem parse?_filterText {text : String} {path : Path} (reads : parse? text = some path)
    (plain : path.modifier = none) (nonempty : fields ≠ [])
    (named : ∀ name ∈ fields, Identifier name.toList) (isQuote : quote = '\'' ∨ quote = '"')
    (spelled : String)
    (fits : (text ++ filterText fields quote spelled).utf8ByteSize ≤ maxByteLength) :
    parse? (text ++ filterText fields quote spelled) =
      some (path.filteredBy fields quote spelled) := by
  have isFilter : Components text.utf8ByteSize (filterText fields quote spelled).toList
      [.filter (textFilter text.utf8ByteSize fields quote spelled)] none := by
    rw [toList_filterText]
    exact .single (.filter (filterBody_equation _ nonempty named isQuote spelled))
  rw [filteredBy, source_of_parse? reads]
  rw [← String.ofList_toList (s := filterText fields quote spelled)] at fits ⊢
  exact parse?_append reads plain isFilter fits

end Path

/-! ## Fields that are declared as texts -/

/-- The field to which the names lead from a datatype, through fields that hold single messages. -/
def Datatype.fieldAlong? (catalog : Catalog) : List String → Datatype → Option FieldDefinition
  | [], _ => none
  | [name], datatype => datatype.field? name
  | name :: next :: rest, datatype =>
      (datatype.field? name).bind fun field =>
        match Walk.contextOfField catalog field with
        | .message inner => fieldAlong? catalog (next :: rest) inner
        | _ => none

def FieldDefinition.IsText (field : FieldDefinition) : Prop :=
  field.type = "string" ∨ field.type = "wstring"

namespace Walk

variable {catalog : Catalog} {place : Place} {datatype : Datatype} {field : FieldDefinition}
  {fields : List String}

theorem name?_of_field? {name : String} (within : place.context = .message datatype)
    (found : datatype.field? name = some field) :
    name? catalog name place =
      (place.value.get? name).map fun value =>
        ⟨value, contextOfField catalog field, some datatype⟩ := by
  simp only [name?, within, partContext?, found]
  cases place.value.get? name <;> rfl

/-- Whatever the message holds, the names lead to the value at their location, which has the
context of the declared field. -/
theorem field?_of_fieldAlong? (within : place.context = .message datatype)
    (declared : datatype.fieldAlong? catalog fields = some field) :
    (field? catalog fields place).map (fun found => (found.value, found.context)) =
      (place.value.locate? (fields.map .field)).map fun value =>
        (value, contextOfField catalog field) := by
  induction fields generalizing place datatype with
  | nil => cases declared
  | cons name rest ih =>
      rw [List.map_cons, Value.locate?, Value.part?, field?]
      cases rest with
      | nil =>
          rw [name?_of_field? within declared]
          cases place.value.get? name <;> rfl
      | cons next later =>
          obtain ⟨first, isFirst, onward⟩ := Option.bind_eq_some_iff.mp declared
          rw [name?_of_field? within isFirst]
          cases place.value.get? name with
          | none => rfl
          | some value =>
              cases inner : contextOfField catalog first with
              | message nested =>
                  rw [inner] at onward
                  exact ih rfl onward
              | _ =>
                  rw [inner] at onward
                  cases onward

/-- Whatever the catalog registers, no value of a text type is in the context of a number. -/
theorem contextOfField_ne_number (catalog : Catalog) (isText : field.IsText) :
    contextOfField catalog field ≠ .scalar .number := by
  have ofType : ∀ type : String, type = "string" ∨ type = "wstring" →
      contextOfType catalog type ≠ .scalar .number := by
    intro type isType
    have noJson : type ≠ jsonType := by rcases isType with rfl | rfl <;> decide
    have noTime : isTimeType type = false := by rcases isType with rfl | rfl <;> decide
    have kind : ScalarKind.ofType? type = some .text := by rcases isType with rfl | rfl <;> rfl
    rw [contextOfType, if_neg noJson, noTime, kind]
    cases catalog.datatype? type <;> simp
  unfold contextOfField
  split
  · simp
  · exact ofType field.type isText

theorem matchesLiteral_string_iff {context : Context} (noNumber : context ≠ .scalar .number)
    {value : Value} {spelled : String} :
    matchesLiteral context value (.string spelled) = true ↔ value = .string spelled := by
  cases value with
  | string s => simp [matchesLiteral]
  | number n =>
      cases context with
      | scalar kind =>
          cases kind with
          | number => exact absurd rfl noNumber
          | bool | text => simp [matchesLiteral]
      | message | time | array | untyped => simp [matchesLiteral]
  | null | bool | array | object => simp [matchesLiteral]

/-- On a message, a filter for a text asks whether the text stands at the declared field. -/
theorem matchesFilter_textFilter_iff {start : Nat} {quote : Char} {spelled : String}
    (within : place.context = .message datatype)
    (declared : datatype.fieldAlong? catalog fields = some field) (isText : field.IsText) :
    matchesFilter catalog (Path.textFilter start fields quote spelled) place = true ↔
      place.value.locate? (fields.map .field) = some (.string spelled) := by
  have along := field?_of_fieldAlong? within declared
  unfold matchesFilter Path.textFilter
  dsimp only
  cases reached : field? catalog fields place with
  | none =>
      rw [reached, Option.map_none, eq_comm, Option.map_eq_none_iff] at along
      simp [along]
  | some found =>
      rw [reached, Option.map_some, eq_comm, Option.map_eq_some_iff] at along
      obtain ⟨value, located, same⟩ := along
      obtain ⟨rfl, isContext⟩ := Prod.mk.inj same
      have noNumber := contextOfField_ne_number catalog isText
      rw [isContext] at noNumber
      rw [located, Option.some.injEq]
      exact matchesLiteral_string_iff noNumber

/-- A filter keeps a message or drops it; it does not go into it. -/
theorem filter_of_message {f : Path.Filter} (within : place.context = .message datatype) :
    filter catalog f place = [place].filter (matchesFilter catalog f) := by
  unfold filter
  rw [within]
  rfl

/-- What is given out for a place. -/
def Place.item (source : String) (place : Place) : Item :=
  ⟨place.value, source, constantName? place⟩

end Walk

namespace Path

variable {text : String} {path : Path} {fields : List String} {quote : Char}

/-- The places that a resolved path addresses in a message body. -/
def places? (path : Path) (catalog : Catalog) (body : Value) : Option (List Walk.Place) :=
  (Walk.rootContext? catalog path.topic).map fun context =>
    Walk.steps catalog path.components [⟨body, context, none⟩]

theorem items?_eq_places? (path : Path) (catalog : Catalog) (body : Value) :
    path.items? catalog body =
      (path.places? catalog body).map fun places => places.map (Walk.Place.item path.source) := by
  rw [places?, Option.map_map]
  rfl

/-- A filter picks among the places of the path behind which it is written. -/
theorem places?_filteredBy {catalog : Catalog} {globals : Globals} {body : Value}
    {places : List Walk.Place} {spelled : String}
    (found : (path.resolve globals).path.places? catalog body = some places) :
    ((path.filteredBy fields quote spelled).resolve globals).path.places? catalog body =
      some (places.flatMap
        (Walk.filter catalog (textFilter path.source.utf8ByteSize fields quote spelled))) := by
  obtain ⟨context, isRoot, rfl⟩ := Option.map_eq_some_iff.mp found
  have components : ((path.filteredBy fields quote spelled).resolve globals).path.components =
      (path.resolve globals).path.components ++
        [.filter (textFilter path.source.utf8ByteSize fields quote spelled)] :=
    List.map_append
  refine Option.map_eq_some_iff.mpr ⟨context, isRoot, ?_⟩
  rw [components, Walk.steps_append]
  rfl

/-- A filter for a text that is written between quotes, with a backslash before every backslash and
every quote of the text, is read behind any path without a modifier as one filter for exactly that
text. It picks among the places of the path. Of those that are messages which declare the field as a
text it keeps the ones where the field holds exactly that text, and drops all others. -/
theorem quoting_is_exact (reads : parse? text = some path) (plain : path.modifier = none)
    (nonempty : fields ≠ []) (named : ∀ name ∈ fields, Grammar.Identifier name.toList)
    (isQuote : quote = '\'' ∨ quote = '"') (spelled : String)
    (fits : (text ++ filterText fields quote spelled).utf8ByteSize ≤ 2 ^ 32 - 3) :
    parse? (text ++ filterText fields quote spelled) =
      some (path.filteredBy fields quote spelled) ∧
    ∀ catalog globals body places,
      (path.resolve globals).path.places? catalog body = some places →
      ((path.filteredBy fields quote spelled).resolve globals).path.items? catalog body =
        some ((places.flatMap (Walk.filter catalog
          (textFilter path.source.utf8ByteSize fields quote spelled))).map
            (Walk.Place.item (path.filteredBy fields quote spelled).source)) ∧
      ∀ place ∈ places, ∀ datatype field, place.context = .message datatype →
        datatype.fieldAlong? catalog fields = some field → field.IsText →
        (place.value.locate? (fields.map .field) = some (.string spelled) →
          Walk.filter catalog (textFilter path.source.utf8ByteSize fields quote spelled) place =
            [place]) ∧
        (place.value.locate? (fields.map .field) ≠ some (.string spelled) →
          Walk.filter catalog (textFilter path.source.utf8ByteSize fields quote spelled) place =
            []) := by
  refine ⟨parse?_filterText reads plain nonempty named isQuote spelled fits, ?_⟩
  intro catalog globals body places found
  refine ⟨?_, ?_⟩
  · rw [items?_eq_places?, places?_filteredBy found]
    rfl
  · intro place _ datatype field within declared isText
    have holds : Walk.matchesFilter catalog
        (textFilter path.source.utf8ByteSize fields quote spelled) place = true ↔ _ :=
      Walk.matchesFilter_textFilter_iff within declared isText
    rw [Walk.filter_of_message within]
    constructor
    · intro located
      rw [List.filter_cons_of_pos (holds.mpr located), List.filter_nil]
    · intro elsewhere
      rw [List.filter_cons_of_neg (fun yes => elsewhere (holds.mp yes)), List.filter_nil]

theorem identifier_cons {c : Char} {rest : List Char} (head : Cursor.isIdentifierStart c = true)
    (tail : rest.all Cursor.isIdentifierChar = true) : Grammar.Identifier (c :: rest) :=
  .mk (Grammar.isIdentifierStart_iff.mp head) fun d member =>
    Grammar.isIdentifierChar_iff.mp (List.all_eq_true.mp tail d member)

def partDatatype : Datatype :=
  ⟨[⟨"label", "Label", false, false, none⟩]⟩

def crateDatatype : Datatype :=
  ⟨[.array "parts" "Part"]⟩

def labelCatalog : Catalog :=
  .ofLists [("/a", "Crate")]
    [("Crate", crateDatatype), ("Label", ⟨[⟨"text", "string", false, false, none⟩]⟩),
      ("Part", partDatatype)]

def partsPath : Path :=
  ⟨"/a.parts[:]", "/a", [.name "parts", .slice none none], none⟩

/-- Both quotes, a backslash, braces, a dollar sign, a line break and NUL. -/
def awkwardText : String :=
  "it's \\\x7b\"$x\"\x7d\n\x00"

def partPlace (text : Value) : Walk.Place :=
  ⟨.object [("label", .object [("text", text)])], .message partDatatype, some crateDatatype⟩

/-- The second label lacks the last character, and the third one is no text. -/
def partPlaces : List Walk.Place :=
  [partPlace (.string awkwardText), partPlace (.string "it's \\\x7b\"$x\"\x7d\n"),
    partPlace (.ofInt 1)]

def crateBody : Value :=
  .object [("parts", .array (partPlaces.map Walk.Place.value))]

theorem quoting_is_exact_awkward :
    parse? "/a.parts[:]" = some partsPath ∧
    parse? ("/a.parts[:]" ++ filterText ["label", "text"] '\'' awkwardText) =
      some (partsPath.filteredBy ["label", "text"] '\'' awkwardText) ∧
    (partsPath.resolve .empty).path.places? labelCatalog crateBody = some partPlaces ∧
    ((partsPath.filteredBy ["label", "text"] '\'' awkwardText).resolve .empty).path.items?
        labelCatalog crateBody =
      some [(partPlace (.string awkwardText)).item
        (partsPath.filteredBy ["label", "text"] '\'' awkwardText).source] := by
  have reads : parse? "/a.parts[:]" = some partsPath := rfl
  have label : Grammar.Identifier ['l', 'a', 'b', 'e', 'l'] := identifier_cons rfl rfl
  have word : Grammar.Identifier ['t', 'e', 'x', 't'] := identifier_cons rfl rfl
  have named : ∀ name ∈ ["label", "text"], Grammar.Identifier name.toList := by
    intro name member
    rcases List.mem_pair.mp member with rfl | rfl
    · exact label
    · exact word
  obtain ⟨readsLonger, keeps⟩ := quoting_is_exact reads rfl (List.cons_ne_nil _ _) named (.inl rfl)
    awkwardText (by decide +kernel)
  have found : (partsPath.resolve .empty).path.places? labelCatalog crateBody = some partPlaces :=
    rfl
  obtain ⟨items, kept⟩ := keeps labelCatalog .empty crateBody partPlaces found
  have settled : ∀ place ∈ partPlaces, place.context = .message partDatatype → _ :=
    fun place member within => kept place member partDatatype ⟨"text", "string", false, false, none⟩
      within rfl (.inl rfl)
  have first := (settled (partPlace (.string awkwardText)) (by simp [partPlaces]) rfl).1 rfl
  have second := (settled (partPlace (.string "it's \\\x7b\"$x\"\x7d\n"))
    (by simp [partPlaces]) rfl).2
      fun same => absurd (Value.string.inj (Option.some.inj same)) (by decide)
  have third := (settled (partPlace (.ofInt 1)) (by simp [partPlaces]) rfl).2
    fun same => nomatch Option.some.inj same
  refine ⟨reads, readsLonger, found, ?_⟩
  rw [items, partPlaces, List.flatMap_cons, List.flatMap_cons, List.flatMap_cons, first, second,
    third]
  rfl

end Path

end MessageQuery
