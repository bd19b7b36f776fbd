import MessageQuery.Proofs.Path.Composition

/-!
# Positions in path texts

A path holds the positions of the dollar signs of its references, and those of the first name and
of the value of each of its filters. Every position is found in the text of its own component, at
the character to which it belongs. A filter also keeps its text, which is all that is needed to
read it again: behind another topic the same filter is read, and its positions have moved together.
-/

namespace MessageQuery.Path

open Cursor Grammar
open Text (byteLength)

/-! ## What a position belongs to -/

def Operand.position? : Operand → Option Nat
  | .literal _ => none
  | .reference _ position => some position

/-- If the operand is a reference, then its position is that of a dollar sign in the word, which
starts at byte `start`; behind the sign and any blanks stands the whole name. -/
def Operand.Marks (start : Nat) (word : List Char) (operand : Operand) : Prop :=
  ∀ name position, operand = .reference name position →
    ∃ before blanks after, word = before ++ '$' :: (blanks ++ (name.toList ++ after)) ∧
      position = start + byteLength before ∧ Blanks blanks ∧ Identifier name.toList ∧
      Stops isIdentifierChar after

/-- The references of a component have their signs in the text of the component, in their order. -/
structure Component.Marks (start : Nat) (word : List Char) (component : Component) : Prop where
  signs : ∀ operand ∈ component.operands, operand.Marks start word
  ordered : (component.operands.filterMap Operand.position?).Pairwise (· < ·)

/-- A filter keeps what stands between its braces, where the first name of its fields and its value
have their positions. -/
structure Filter.Marks (start : Nat) (word : List Char) (f : Filter) : Prop where
  braces : word = '{' :: (f.written.toList ++ ['}'])
  name : ∃ blanks name rest, f.written.toList = blanks ++ (name ++ rest) ∧ Blanks blanks ∧
    f.path.head? = some (String.ofList name) ∧ Identifier name ∧ Stops isIdentifierChar rest ∧
    f.namePosition = start + 1 + byteLength blanks
  value : ∃ blanks fields middle between cs behind,
    f.written.toList = blanks ++ (fields ++ (middle ++ '=' :: '=' :: (between ++ (cs ++ behind)))) ∧
    Blanks blanks ∧ FieldPath fields f.path ∧ Blanks middle ∧ Blanks between ∧ Blanks behind ∧
    FilterValue (start + 1 + byteLength (blanks ++ (fields ++ (middle ++ '=' :: '=' :: between))))
      cs f.value f.valuePosition

variable {start : Nat} {word cs front behind : List Char}

/-! ## References -/

theorem marks_of_bound {operand : Operand} (isBound : Bound (start + byteLength front) cs operand)
    (stops : Stops isIdentifierChar behind) : operand.Marks start (front ++ (cs ++ behind)) := by
  rintro name position rfl
  cases isBound with
  | reference refers =>
      cases refers with
      | @mk blanks name isBlanks isName =>
          refine ⟨front, blanks, behind, ?_, rfl, isBlanks, ?_, stops⟩
          · rw [String.toList_ofList]
            simp
          · rw [String.toList_ofList]
            exact isName

theorem marks_of_optionalBound {bound? : Option Operand}
    (isBound : OptionalBound (start + byteLength front) cs bound?)
    (stops : Stops isIdentifierChar behind) :
    ∀ operand ∈ bound?.toList, operand.Marks start (front ++ (cs ++ behind)) := by
  intro operand member
  cases isBound with
  | absent => cases member
  | present isBound =>
      cases List.mem_singleton.mp member
      exact marks_of_bound isBound stops

theorem position_of_bound {operand : Operand} {position : Nat} (isBound : Bound start cs operand)
    (placed : operand.position? = some position) : position = start := by
  cases isBound with
  | integer spells => cases placed
  | reference refers =>
      cases refers
      cases placed
      rfl

theorem position_of_optionalBound {bound? : Option Operand} {position : Nat}
    (isBound : OptionalBound start cs bound?)
    (member : position ∈ bound?.toList.filterMap Operand.position?) : position = start := by
  obtain ⟨operand, isOperand, placed⟩ := List.mem_filterMap.mp member
  cases isBound with
  | absent => cases isOperand
  | present isBound =>
      cases List.mem_singleton.mp isOperand
      exact position_of_bound isBound placed

theorem pairwise_positions_toList (bound? : Option Operand) :
    (bound?.toList.filterMap Operand.position?).Pairwise (· < ·) := by
  cases bound? with
  | none => exact .nil
  | some operand =>
      cases operand with
      | literal value => exact .nil
      | reference name position => exact List.pairwise_singleton _ _

theorem marks_of_filterValue {operand : Operand} {position : Nat}
    (isValue : FilterValue (start + byteLength front) cs operand position)
    (stops : Stops isIdentifierChar behind) : operand.Marks start (front ++ (cs ++ behind)) := by
  cases isValue with
  | bound isBound => exact marks_of_bound isBound stops
  | quoted spells =>
      intro name position isReference
      cases isReference

theorem marks_of_component {component : Component}
    (isComponent : Grammar.Component start word component) : component.Marks start word := by
  have bracket : '['.utf8Size = 1 := rfl
  have brace : '{'.utf8Size = 1 := rfl
  have colon : ':'.utf8Size = 1 := rfl
  cases isComponent with
  | name isName => exact ⟨fun _ member => (List.not_mem_nil member).elim, .nil⟩
  | index isBody =>
      cases isBody with
      | @index before cs after operand isBefore isBound isAfter =>
          have placed : Bound (start + byteLength ('[' :: before)) cs operand := by
            rw [byteLength, bracket, ← Nat.add_assoc]
            exact isBound
          refine ⟨fun other member => ?_, pairwise_positions_toList (some operand)⟩
          cases List.mem_singleton.mp member
          have stops := stops_before_sign isAfter (show isIdentifierChar ']' = false by decide) []
          simpa using marks_of_bound placed stops
      | @slice before cs middle first isBefore isBound isMiddle between ds after second isBetween
          isStop isAfter =>
          have placed : OptionalBound (start + byteLength ('[' :: before)) cs first := by
            rw [byteLength, bracket, ← Nat.add_assoc]
            exact isBound
          have placedStop : OptionalBound
              (start + byteLength ('[' :: (before ++ (cs ++ (middle ++ ':' :: between))))) ds
              second := by
            rw [byteLength, bracket, ← Nat.add_assoc]
            exact isStop
          have stops := stops_before_sign isMiddle (show isIdentifierChar ':' = false by decide)
            (between ++ (ds ++ (after ++ [']'])))
          have stopsLast := stops_before_sign isAfter
            (show isIdentifierChar ']' = false by decide) []
          refine ⟨fun operand member => ?_, ?_⟩
          · rcases List.mem_append.mp member with isFirst | isSecond
            · simpa using marks_of_optionalBound placed stops operand isFirst
            · simpa using marks_of_optionalBound placedStop stopsLast operand isSecond
          · rw [Component.operands, List.filterMap_append, List.pairwise_append]
            refine ⟨pairwise_positions_toList first, pairwise_positions_toList second, ?_⟩
            intro early isEarly late isLate
            rw [position_of_optionalBound placed isEarly,
              position_of_optionalBound placedStop isLate]
            simp only [byteLength, Text.byteLength_append, bracket, colon]
            omega
  | filter isBody =>
      cases isBody with
      | @mk before fields middle names isBefore isPath isMiddle between cs after value position
          isBetween isValue isAfter =>
          have placed : FilterValue (start + byteLength
              ('{' :: (before ++ (fields ++ (middle ++ '=' :: '=' :: between))))) cs value
              position := by
            rw [byteLength, brace, ← Nat.add_assoc]
            exact isValue
          refine ⟨fun operand member => ?_, pairwise_positions_toList (some value)⟩
          cases List.mem_singleton.mp member
          have stops := stops_before_sign isAfter (show isIdentifierChar '}' = false by decide) []
          simpa using marks_of_filterValue placed stops

/-! ## Filters -/

theorem exists_first_name {fields tail : List Char} {names : List String}
    (isPath : FieldPath fields names) (stops : Stops isIdentifierChar tail) :
    ∃ name rest, fields ++ tail = name ++ rest ∧ names.head? = some (String.ofList name) ∧
      Identifier name ∧ Stops isIdentifierChar rest := by
  cases isPath with
  | last isName => exact ⟨fields, tail, rfl, rfl, isName, stops⟩
  | @more name before after later _ isName isBefore _ _ =>
      refine ⟨name, before ++ '.' :: (after ++ later ++ tail), by simp, rfl, isName, ?_⟩
      exact stops_before_sign isBefore (by decide) _

theorem marks_of_filterBody {body : List Char} {f : Filter}
    (isBody : FilterBody (start + 1) body f) :
    body = f.written.toList ∧ f.Marks start ('{' :: (body ++ ['}'])) := by
  cases isBody with
  | @mk before fields middle names isBefore isPath isMiddle between cs after value position
      isBetween isValue isAfter =>
      refine ⟨String.toList_ofList.symm, ?_, ?_, ?_⟩
      · rw [String.toList_ofList]
      · have ends := stops_before_sign isMiddle (show isIdentifierChar '=' = false by decide)
          ('=' :: (between ++ (cs ++ after)))
        obtain ⟨name, rest, split, isHead, isName, stops⟩ := exists_first_name isPath ends
        refine ⟨before, name, rest, ?_, isBefore, isHead, isName, stops, rfl⟩
        rw [String.toList_ofList, split]
      · exact ⟨before, fields, middle, between, cs, after, String.toList_ofList, isBefore, isPath,
          isMiddle, isBetween, isAfter, isValue⟩

/-! ## Reading a filter again -/

/-- The operand as it is read that many bytes further on. -/
def Operand.moved (distance : Nat) : Operand → Operand
  | .literal value => .literal value
  | .reference name position => .reference name (position + distance)

def Filter.moved (distance : Nat) (f : Filter) : Filter :=
  { f with
    value := f.value.moved distance
    namePosition := f.namePosition + distance
    valuePosition := f.valuePosition + distance }

theorem exists_moved_bound {distance : Nat} {operand : Operand}
    (isBound : Bound (start + distance) cs operand) :
    ∃ other, Bound start cs other ∧ operand = other.moved distance := by
  cases isBound with
  | integer spells => exact ⟨_, .integer spells, rfl⟩
  | reference refers =>
      cases refers with
      | mk isBlanks isName => exact ⟨_, .reference (.mk isBlanks isName), rfl⟩

theorem exists_moved_filterValue {distance position : Nat} {operand : Operand}
    (isValue : FilterValue (start + distance) cs operand position) :
    ∃ other before, FilterValue start cs other before ∧ operand = other.moved distance ∧
      position = before + distance := by
  cases isValue with
  | bound isBound =>
      obtain ⟨other, isOther, rfl⟩ := exists_moved_bound isBound
      exact ⟨other, start, .bound isOther, rfl, rfl⟩
  | quoted spells => exact ⟨_, start + 1, .quoted spells, rfl, Nat.add_right_comm _ _ _⟩

/-- What stands between braces is a filter wherever it is written. -/
theorem exists_moved_filterBody {distance : Nat} {body : List Char} {f : Filter}
    (isBody : FilterBody (start + distance) body f) :
    ∃ g, FilterBody start body g ∧ f = g.moved distance := by
  cases isBody with
  | mk isBefore isPath isMiddle isBetween isValue isAfter =>
      rw [Nat.add_right_comm] at isValue
      obtain ⟨other, before, isOther, rfl, rfl⟩ := exists_moved_filterValue isValue
      refine ⟨_, .mk isBefore isPath isMiddle isBetween isOther isAfter, ?_⟩
      rw [Filter.moved, Nat.add_right_comm]

/-- The text of a filter is all that is needed to read it again. -/
theorem exists_moved_of_filterBody {distance : Nat} {f : Filter}
    (isBody : FilterBody (3 + distance) f.written.toList f)
    (fits : byteLength f.written.toList + 4 ≤ maxByteLength) :
    ∃ g, f = g.moved distance ∧
      parse? ("/x\x7b" ++ f.written ++ "\x7d") =
        some { source := "/x\x7b" ++ f.written ++ "\x7d", topic := "/x",
               components := [.filter g], modifier := none } := by
  obtain ⟨g, isMoved, same⟩ := exists_moved_filterBody isBody
  have isTopic : Topic ['/', 'x'] := .mk fun c member => by
    rw [List.mem_singleton.mp member]
    exact .inl (isLetter_iff.mpr rfl)
  have derived : Components (byteLength "/x".toList) ('{' :: (f.written.toList ++ ['}']))
      [.filter g] none := .single (.filter isMoved)
  have source : "/x\x7b" ++ f.written ++ "\x7d" =
      String.ofList ("/x".toList ++ '{' :: (f.written.toList ++ ['}'])) := by
    rw [← String.toList_inj]
    simp
  refine ⟨g, same, ?_⟩
  rw [source]
  refine parse?_of_components isTopic derived ?_
  have size : byteLength ("/x".toList ++ '{' :: (f.written.toList ++ ['}'])) =
      byteLength f.written.toList + 4 := by
    have topic : byteLength "/x".toList = 2 := rfl
    have opening : '{'.utf8Size = 1 := rfl
    have closing : byteLength ['}'] = 1 := rfl
    rw [Text.byteLength_append, byteLength, Text.byteLength_append, topic, opening, closing]
    omega
  rw [size]
  exact fits

theorem two_le_byteLength_of_topic {topic : List Char} (isTopic : Topic topic) :
    2 ≤ byteLength topic := by
  cases isTopic with
  | @mk first rest allowed =>
      have slash : '/'.utf8Size = 1 := rfl
      have positive := first.utf8Size_pos
      simp only [byteLength, slash]
      omega

/-- Every component of a path has a text of its own, found by what reads before it and with it. In
that text the references of the component have their positions at their dollar signs, in their
order, with their names behind them. The text of a filter is its braces with what it keeps between
them, where the first name and the value have their positions; and what it keeps reads as the same
filter behind another topic, with all its positions moved by one distance. -/
theorem positions_of_parse? {text : String} {path : Path} (reads : parse? text = some path)
    {earlier later : List Component} {component : Component}
    (split : path.components = earlier ++ component :: later) :
    ∃ before word after : List Char, text.toList = before ++ (word ++ after) ∧
      parse? (String.ofList before) =
        some { source := String.ofList before, topic := path.topic, components := earlier,
               modifier := none } ∧
      parse? (String.ofList (before ++ word)) =
        some { source := String.ofList (before ++ word), topic := path.topic,
               components := earlier ++ [component], modifier := none } ∧
      component.Marks (byteLength before) word ∧
      ∀ f, component = .filter f → f.Marks (byteLength before) word ∧
        ∃ distance g, f = g.moved distance ∧
          parse? ("/x\x7b" ++ f.written ++ "\x7d") =
            some { source := "/x\x7b" ++ f.written ++ "\x7d", topic := "/x",
                   components := [.filter g], modifier := none } := by
  obtain ⟨before, word, after, isText, readsBefore, readsWith, isComponent⟩ :=
    exists_split_of_parse? reads split
  refine ⟨before, word, after, isText, readsBefore, readsWith, marks_of_component isComponent, ?_⟩
  rintro f rfl
  obtain ⟨front, isBefore, isTopic, _⟩ := exists_components_of_parse? readsBefore
  rw [String.toList_ofList] at isBefore
  have topicSize := two_le_byteLength_of_topic isTopic
  have beforeSize : 2 ≤ byteLength before := by
    rw [isBefore, Text.byteLength_append]
    omega
  have fits := fits_of_parse? reads
  rw [Text.utf8ByteSize_eq, isText, Text.byteLength_append, Text.byteLength_append] at fits
  cases isComponent with
  | index isBody => cases isBody
  | filter isBody =>
      obtain ⟨rfl, marks⟩ := marks_of_filterBody isBody
      refine ⟨marks, byteLength before - 2, ?_⟩
      have place : byteLength before + 1 = 3 + (byteLength before - 2) := by omega
      rw [place] at isBody
      refine exists_moved_of_filterBody isBody ?_
      have opening : '{'.utf8Size = 1 := rfl
      have closing : byteLength ['}'] = 1 := rfl
      rw [byteLength, Text.byteLength_append, opening, closing] at fits
      omega

def boundFilter : Filter :=
  ⟨["b", "c"], .reference "v" 33, " b . c == $v ", 24, 33⟩

/-- A brace in a quoted text and a sign of two bytes stand before the filter. -/
def markedPath : Path :=
  { source := "/a\x7bs=='é\x7d'\x7d[ $i:$ n ]\x7b b . c == $v \x7d"
    topic := "/a"
    components :=
      [.filter ⟨["s"], .literal (.string "é\x7d"), "s=='é\x7d'", 3, 7⟩,
        .slice (some (.reference "i" 14)) (some (.reference "n" 17)), .filter boundFilter]
    modifier := none }

theorem positions_of_parse?_nested :
    parse? markedPath.source = some markedPath ∧
    ∃ before word after : List Char, markedPath.source.toList = before ++ (word ++ after) ∧
      boundFilter.Marks (byteLength before) word ∧
      ∃ distance g, boundFilter = g.moved distance ∧
        parse? ("/x\x7b" ++ boundFilter.written ++ "\x7d") =
          some { source := "/x\x7b" ++ boundFilter.written ++ "\x7d", topic := "/x",
                 components := [.filter g], modifier := none } := by
  have reads : parse? markedPath.source = some markedPath := rfl
  have split : markedPath.components =
      [markedPath.components[0], markedPath.components[1]] ++ .filter boundFilter :: [] := rfl
  obtain ⟨before, word, after, isText, _, _, _, filters⟩ := positions_of_parse? reads split
  exact ⟨reads, before, word, after, isText, filters boundFilter rfl⟩

end MessageQuery.Path
