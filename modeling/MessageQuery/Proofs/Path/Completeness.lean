import Mathlib.Algebra.Group.Nat.Defs
import MessageQuery.Proofs.Path.Soundness

/-!
# The parser reads what is in the grammar

A parser that stands at a phrase of the grammar reads it, as long as the text behind it begins
with a token that cannot belong to the phrase. Each lemma runs one reading function over its
phrase and leaves the parser facing the text behind it.
-/

namespace MessageQuery.Path

open Cursor Grammar
open Text (byteLength)

namespace Grammar

variable {p : Char → Bool} {blanks tail : List Char}

theorem Stops.after_blanks (stops : Stops p tail) (isBlanks : Blanks blanks)
    (noSpace : p ' ' = false) (noTab : p '\t' = false) : Stops p (blanks ++ tail) := by
  cases blanks with
  | nil => exact stops
  | cons c rest =>
      rcases isBlanks c List.mem_cons_self with rfl | rfl
      · exact .cons noSpace
      · exact .cons noTab

/-- No name goes on behind blanks and a sign that is not part of a name. -/
theorem stops_before_sign (isBlanks : Blanks blanks) {sign : Char}
    (outside : isIdentifierChar sign = false) (tail : List Char) :
    Stops isIdentifierChar (blanks ++ sign :: tail) :=
  Stops.after_blanks (.cons outside) isBlanks (by decide) (by decide)

theorem stops_isIdentifierChar (stops : Stops continuesInteger tail) :
    Stops isIdentifierChar tail := by
  refine stops.mono fun c inside => ?_
  rw [isIdentifierChar, isAsciiAlphanumeric, Bool.or_eq_true, Bool.or_eq_true] at inside
  rw [continuesInteger, continuesNumber]
  rcases inside with (letter | digit) | underscore
  · simp [letter]
  · simp [digit]
  · simp [underscore]

end Grammar

namespace Parser

variable {parser after : Parser} {before word tail blanks behind : List Char} {depth : Nat}

/-! ## Tokens -/

theorem identifier_complete (stands : parser.Stands before (word ++ tail) depth)
    (isName : Identifier word) (stops : Stops isIdentifierChar tail) (begins : Begins tail depth) :
    ∃ after, parser.identifier = .ok (String.ofList word, after) ∧
      after.Faces (before ++ word) tail depth := by
  obtain ⟨token, continues⟩ := stands.token_eq (.identifier isName stops)
  obtain ⟨after, stepped, faces⟩ := continues.exists_next begins
  refine ⟨after, ?_, faces⟩
  simp only [identifier, token]
  exact bind_eq_ok_iff.mpr ⟨after, stepped, rfl⟩

theorem expect_complete {symbol : Symbol}
    (stands : parser.Stands before (symbol.text ++ tail) depth)
    (begins : Begins tail (depthAfter depth symbol)) (cause : Fault) :
    ∃ after, parser.expect symbol cause = .ok after ∧
      after.Faces (before ++ symbol.text) tail (depthAfter depth symbol) := by
  obtain ⟨token, continues⟩ := stands.at_symbol
  obtain ⟨after, stepped, faces⟩ := continues.exists_next begins
  refine ⟨after, ?_, faces⟩
  rw [expect, if_pos (congrArg Token.lexeme token)]
  exact stepped

/-! ## Operands -/

theorem reference_complete (stands : parser.Stands before (word ++ tail) depth)
    (inside : depth ≠ 0) {operand : Operand} (refers : Reference (byteLength before) word operand)
    (stops : Stops isIdentifierChar tail) (begins : Begins tail depth) :
    parser.token.lexeme = .symbol .dollar ∧ ∃ after, parser.reference = .ok (operand, after) ∧
      after.Faces (before ++ word) tail depth := by
  cases refers with
  | @mk blanks name isBlanks isName =>
      have split : '$' :: (blanks ++ name) ++ tail =
          Symbol.dollar.text ++ (blanks ++ (name ++ tail)) := by simp [Symbol.text]
      rw [split] at stands
      have reads := Reads.identifier isName stops
      obtain ⟨token, continues⟩ := stands.at_symbol
      obtain ⟨atName, stepped, faces⟩ :=
        continues.exists_next (begins_after_blanks reads.starts isBlanks inside)
      have standsAtName := faces.stands isBlanks reads.starts
      obtain ⟨after, named, facesAfter⟩ := identifier_complete standsAtName isName stops begins
      refine ⟨congrArg Token.lexeme token, after, ?_, ?_⟩
      · rw [← show parser.token.start = byteLength before from congrArg Token.start token]
        exact bind_eq_ok_iff.mpr ⟨atName, stepped, bind_eq_ok_iff.mpr ⟨_, named, rfl⟩⟩
      · simpa [Symbol.text, depthAfter] using facesAfter

/-- A bound is an integer token, or a reference. -/
theorem bound_token (stands : parser.Stands before (word ++ tail) depth) (inside : depth ≠ 0)
    {operand : Operand} (isBound : Bound (byteLength before) word operand)
    (stops : Stops continuesInteger tail) (begins : Begins tail depth) :
    ∃ after, after.Faces (before ++ word) tail depth ∧
      ((parser.token = ⟨.integer word, byteLength before⟩ ∧ operand = .literal (integer word) ∧
          parser.next = .ok after) ∨
        (parser.token.lexeme = .symbol .dollar ∧ parser.token.start = byteLength before ∧
          parser.reference = .ok (operand, after))) := by
  cases isBound with
  | integer spells =>
      obtain ⟨token, continues⟩ := stands.token_eq (.integer spells stops)
      obtain ⟨after, stepped, faces⟩ := continues.exists_next begins
      refine ⟨after, faces, .inl ⟨token, ?_, stepped⟩⟩
      rw [integer, spells.intOfDigits?_eq]
      rfl
  | reference refers =>
      obtain ⟨isDollar, after, referred, faces⟩ :=
        reference_complete stands inside refers (stops_isIdentifierChar stops) begins
      obtain ⟨_, _, start, _⟩ := stands.exists_symbol isDollar
      exact ⟨after, faces, .inr ⟨isDollar, start, referred⟩⟩

theorem bound_complete (stands : parser.Stands before (word ++ tail) depth) (inside : depth ≠ 0)
    {operand : Operand} (isBound : Bound (byteLength before) word operand)
    (stops : Stops continuesInteger tail) (begins : Begins tail depth) :
    ∃ after, parser.bound = .ok (some operand, after) ∧
      after.Faces (before ++ word) tail depth := by
  obtain ⟨after, faces, ⟨token, rfl, stepped⟩ | ⟨isDollar, _, referred⟩⟩ :=
    bound_token stands inside isBound stops begins
  · refine ⟨after, ?_, faces⟩
    simp only [bound, token]
    exact bind_eq_ok_iff.mpr ⟨after, stepped, rfl⟩
  · refine ⟨after, ?_, faces⟩
    simp only [bound, isDollar]
    exact bind_eq_ok_iff.mpr ⟨_, referred, rfl⟩

theorem filterValue_complete (stands : parser.Stands before (word ++ tail) depth)
    (inside : depth ≠ 0) {value : Operand} {position : Nat}
    (isValue : FilterValue (byteLength before) word value position)
    (stops : Stops continuesInteger tail) (begins : Begins tail depth) :
    ∃ after, parser.filterValue = .ok (value, after) ∧ parser.token.start = position ∧
      after.Faces (before ++ word) tail depth := by
  cases isValue with
  | bound isBound =>
      obtain ⟨after, faces, ⟨token, rfl, stepped⟩ | ⟨isDollar, start, referred⟩⟩ :=
        bound_token stands inside isBound stops begins
      · refine ⟨after, ?_, congrArg Token.start token, faces⟩
        simp only [filterValue, token]
        exact bind_eq_ok_iff.mpr ⟨after, stepped, rfl⟩
      · refine ⟨after, ?_, start, faces⟩
        simp only [filterValue, isDollar]
        exact referred
  | quoted spells =>
      cases spells with
      | mk isQuote body =>
          obtain ⟨token, continues⟩ := stands.token_eq (.quoted isQuote body tail)
          obtain ⟨after, stepped, faces⟩ := continues.exists_next begins
          refine ⟨after, ?_, congrArg Token.start token, faces⟩
          simp only [filterValue, token]
          rw [← body.unescape_eq]
          exact bind_eq_ok_iff.mpr ⟨after, stepped, rfl⟩

/-! ## Brackets -/

/-- An operand ends where a blank or one of these symbols follows. -/
theorem stops_before_symbol {symbol : Symbol} (areBlanks : Blanks behind)
    (closes : symbol = .colon ∨ symbol = .closeBracket ∨ symbol = .closeBrace) :
    Stops continuesInteger (behind ++ (symbol.text ++ tail)) := by
  refine Stops.after_blanks ?_ areBlanks (by decide) (by decide)
  rcases closes with rfl | rfl | rfl <;> exact .cons (by decide)

theorem starts_of_bound {start : Nat} {operand : Operand} (isBound : Bound start word operand)
    (stops : Stops continuesInteger tail) : Starts (word ++ tail) := by
  cases isBound with
  | integer spells => exact (Reads.integer spells stops).starts
  | reference refers =>
      cases refers with
      | mk isBlanks isName => exact (Reads.symbol .dollar _).starts

theorem blanks_append (isBlanks : Blanks blanks) (areBlanks : Blanks behind) :
    Blanks (blanks ++ behind) := by
  intro c member
  rcases List.mem_append.mp member with early | late
  · exact isBlanks c early
  · exact areBlanks c late

/-- A bound that may be left out, with the blanks around it and a symbol behind them. -/
structure BoundPhrase (start : Nat) (blanks word behind : List Char) (bound? : Option Operand)
    (symbol : Symbol) : Prop where
  isBlanks : Blanks blanks
  isBound : OptionalBound (start + byteLength blanks) word bound?
  areBlanks : Blanks behind
  closes : symbol = .colon ∨ symbol = .closeBracket

theorem BoundPhrase.stops {start : Nat} {bound? : Option Operand} {symbol : Symbol}
    (phrase : BoundPhrase start blanks word behind bound? symbol) :
    Stops continuesInteger (behind ++ (symbol.text ++ tail)) :=
  stops_before_symbol phrase.areBlanks (phrase.closes.imp_right .inl)

theorem BoundPhrase.begins {start : Nat} {bound? : Option Operand} {symbol : Symbol}
    (phrase : BoundPhrase start blanks word behind bound? symbol) (inside : depth ≠ 0) :
    Begins (blanks ++ (word ++ (behind ++ (symbol.text ++ tail)))) depth := by
  cases phrase.isBound with
  | absent =>
      rw [List.nil_append, ← List.append_assoc]
      have both := blanks_append phrase.isBlanks phrase.areBlanks
      exact begins_after_blanks (Reads.symbol symbol tail).starts both inside
  | present isBound =>
      exact begins_after_blanks (starts_of_bound isBound phrase.stops) phrase.isBlanks inside

theorem BoundPhrase.complete {bound? : Option Operand} {symbol : Symbol}
    (phrase : BoundPhrase (byteLength before) blanks word behind bound? symbol)
    (faces : parser.Faces before (blanks ++ (word ++ (behind ++ (symbol.text ++ tail)))) depth)
    (inside : depth ≠ 0) :
    ∃ after, parser.bound = .ok (bound?, after) ∧
      after.Stands (before ++ (blanks ++ (word ++ behind))) (symbol.text ++ tail) depth := by
  have starts := (Reads.symbol symbol tail).starts
  have isBound := phrase.isBound
  rw [← Text.byteLength_append] at isBound
  cases isBound with
  | absent =>
      rw [List.nil_append, ← List.append_assoc] at faces
      have stands := faces.stands (blanks_append phrase.isBlanks phrase.areBlanks) starts
      refine ⟨parser, ?_, stands⟩
      have token := congrArg Token.lexeme stands.at_symbol.1
      simp only [bound, token]
      rcases phrase.closes with rfl | rfl <;> rfl
  | present isBound =>
      have stands := faces.stands phrase.isBlanks (starts_of_bound isBound phrase.stops)
      obtain ⟨after, read, facesAfter⟩ := bound_complete stands inside isBound phrase.stops
        (begins_after_blanks starts phrase.areBlanks inside)
      refine ⟨after, read, ?_⟩
      simpa using facesAfter.stands phrase.areBlanks starts

theorem index_complete {operand : Operand}
    (stands : parser.Stands before
      (Symbol.openBracket.text ++
        (blanks ++ (word ++ (behind ++ (Symbol.closeBracket.text ++ tail))))) 0)
    (phrase : BoundPhrase (byteLength (before ++ Symbol.openBracket.text)) blanks word behind
      (some operand) .closeBracket) (begins : Begins tail 0) :
    ∃ after, parser.indexOrSlice = .ok (.index operand, after) ∧
      after.Faces (before ++ Symbol.openBracket.text ++ (blanks ++ (word ++ behind)) ++
        Symbol.closeBracket.text) tail 0 := by
  obtain ⟨_, continues⟩ := stands.at_symbol
  obtain ⟨inside, stepped, faces⟩ := continues.exists_next (phrase.begins Nat.one_ne_zero)
  obtain ⟨afterFirst, read, standsAtClose⟩ := phrase.complete faces Nat.one_ne_zero
  obtain ⟨after, closed, facesAfter⟩ := expect_complete standsAtClose begins .unclosedIndex
  have noColon : afterFirst.token.lexeme ≠ .symbol .colon := by
    rw [standsAtClose.at_symbol.1]
    simp
  refine ⟨after, ?_, facesAfter⟩
  refine bind_eq_ok_iff.mpr ⟨inside, stepped, bind_eq_ok_iff.mpr ⟨_, read, ?_⟩⟩
  dsimp only
  rw [if_neg noColon]
  exact bind_eq_ok_iff.mpr ⟨after, closed, rfl⟩

theorem slice_complete {middle between stopWord : List Char} {first second : Option Operand}
    (stands : parser.Stands before
      (Symbol.openBracket.text ++ (blanks ++ (word ++ (middle ++ (Symbol.colon.text ++
        (between ++ (stopWord ++ (behind ++ (Symbol.closeBracket.text ++ tail))))))))) 0)
    (phrase : BoundPhrase (byteLength (before ++ Symbol.openBracket.text)) blanks word middle
      first .colon)
    (stopPhrase : BoundPhrase (byteLength (before ++ Symbol.openBracket.text ++
      (blanks ++ (word ++ middle)) ++ Symbol.colon.text)) between stopWord behind second
      .closeBracket) (begins : Begins tail 0) :
    ∃ after, parser.indexOrSlice = .ok (.slice first second, after) ∧
      after.Faces (before ++ Symbol.openBracket.text ++ (blanks ++ (word ++ middle)) ++
        Symbol.colon.text ++ (between ++ (stopWord ++ behind)) ++ Symbol.closeBracket.text)
        tail 0 := by
  obtain ⟨_, continues⟩ := stands.at_symbol
  obtain ⟨inside, stepped, faces⟩ := continues.exists_next (phrase.begins Nat.one_ne_zero)
  obtain ⟨atColon, read, standsAtColon⟩ := phrase.complete faces Nat.one_ne_zero
  obtain ⟨colon, continuesAtColon⟩ := standsAtColon.at_symbol
  obtain ⟨atStop, steppedAtColon, facesStop⟩ :=
    continuesAtColon.exists_next (stopPhrase.begins Nat.one_ne_zero)
  obtain ⟨afterStop, readStop, standsAtClose⟩ := stopPhrase.complete facesStop Nat.one_ne_zero
  obtain ⟨after, closed, facesAfter⟩ := expect_complete standsAtClose begins .unclosedIndex
  refine ⟨after, ?_, facesAfter⟩
  refine bind_eq_ok_iff.mpr ⟨inside, stepped, bind_eq_ok_iff.mpr ⟨_, read, ?_⟩⟩
  dsimp only
  rw [if_pos (congrArg Token.lexeme colon)]
  refine bind_eq_ok_iff.mpr ⟨atStop, steppedAtColon, bind_eq_ok_iff.mpr ⟨_, readStop, ?_⟩⟩
  exact bind_eq_ok_iff.mpr ⟨after, closed, rfl⟩

theorem indexOrSlice_complete {body : List Char} {component : Path.Component}
    (stands : parser.Stands before ('[' :: (body ++ ']' :: tail)) 0)
    (isBody : IndexBody (byteLength before + 1) body component) (begins : Begins tail 0) :
    ∃ after, parser.indexOrSlice = .ok (component, after) ∧
      after.Faces (before ++ '[' :: (body ++ [']'])) tail 0 := by
  have place := byteLength_append_symbol before .openBracket
  cases isBody with
  | @index blanks word behind operand isBlanks isBound areBlanks =>
      have opened : parser.Stands before (Symbol.openBracket.text ++
          (blanks ++ (word ++ (behind ++ (Symbol.closeBracket.text ++ tail))))) 0 := by
        simpa [Symbol.text] using stands
      obtain ⟨after, read, faces⟩ := index_complete opened
        ⟨isBlanks, .present (place ▸ isBound), areBlanks, .inr rfl⟩ begins
      refine ⟨after, read, ?_⟩
      simpa [Symbol.text] using faces
  | @slice blanks word middle first isBlanks isBound areMiddle between stopWord behind second
      areBetween isStop areBlanks =>
      have opened : parser.Stands before (Symbol.openBracket.text ++ (blanks ++ (word ++
          (middle ++ (Symbol.colon.text ++ (between ++ (stopWord ++
            (behind ++ (Symbol.closeBracket.text ++ tail))))))))) 0 := by
        simpa [Symbol.text] using stands
      rw [← position_of_stop] at isStop
      obtain ⟨after, read, faces⟩ := slice_complete opened
        ⟨isBlanks, place ▸ isBound, areMiddle, .inl rfl⟩
        ⟨areBetween, isStop, areBlanks, .inr rfl⟩ begins
      refine ⟨after, read, ?_⟩
      simpa [Symbol.text] using faces

/-! ## Braces -/

theorem stops_before_dot (isBlanks : Blanks blanks) :
    Stops isIdentifierChar (blanks ++ '.' :: tail) :=
  stops_before_sign isBlanks (by decide) tail

theorem stops_before_equals (isBlanks : Blanks blanks) (tail : List Char) :
    Stops isIdentifierChar (blanks ++ (Symbol.equals.text ++ tail)) :=
  stops_before_sign isBlanks (by decide) ('=' :: tail)

theorem starts_of_fieldPath {fields : List Char} {names : List String}
    (isPath : FieldPath fields names) (stops : Stops isIdentifierChar tail) :
    Starts (fields ++ tail) := by
  cases isPath with
  | last isName => exact (Reads.identifier isName stops).starts
  | more isName isBlanks areBlanks rest =>
      rw [List.append_assoc, List.append_assoc]
      exact (Reads.identifier isName (stops_before_dot isBlanks)).starts

/-- The first name is read on its own, and the names after dots then. -/
theorem fieldPath_complete {fields middle : List Char} {names : List String} {fuel : Nat}
    (stands : parser.Stands before (fields ++ (middle ++ (Symbol.equals.text ++ tail))) depth)
    (inside : depth ≠ 0) (isPath : FieldPath fields names) (areMiddle : Blanks middle)
    (enough : fields.length < fuel) :
    ∃ first later afterName after, names = first :: later ∧
      parser.identifier = .ok (first, afterName) ∧
      afterName.moreNames fuel = .ok (later, after) ∧
      after.Stands (before ++ fields ++ middle) (Symbol.equals.text ++ tail) depth := by
  have atEquals := (Reads.symbol .equals tail).starts
  induction isPath generalizing parser before fuel with
  | last isName =>
      obtain ⟨afterName, read, faces⟩ := identifier_complete stands isName
        (stops_before_equals areMiddle tail) (begins_after_blanks atEquals areMiddle inside)
      have standsAtEquals := faces.stands areMiddle atEquals
      have noDot : afterName.token.lexeme ≠ .symbol .dot := by
        rw [standsAtEquals.at_symbol.1]
        simp
      refine ⟨_, [], afterName, afterName, rfl, read, ?_, standsAtEquals⟩
      cases fuel with
      | zero => exact absurd enough (Nat.not_lt_zero _)
      | succ fuel => rw [moreNames, if_neg noDot]
  | @more name blanks between laterFields laterNames isName isBlanks areBetween rest ih =>
      have split : name ++ (blanks ++ '.' :: (between ++ laterFields)) ++
          (middle ++ (Symbol.equals.text ++ tail)) = name ++ (blanks ++ (Symbol.dot.text ++
            (between ++ (laterFields ++ (middle ++ (Symbol.equals.text ++ tail)))))) := by
        simp [Symbol.text]
      rw [split] at stands
      have atDot := (Reads.symbol .dot
        (between ++ (laterFields ++ (middle ++ (Symbol.equals.text ++ tail))))).starts
      have atLater := starts_of_fieldPath rest (stops_before_equals areMiddle tail)
      obtain ⟨afterName, read, faces⟩ := identifier_complete stands isName
        (stops_before_dot isBlanks) (begins_after_blanks atDot isBlanks inside)
      obtain ⟨dot, continues⟩ := (faces.stands isBlanks atDot).at_symbol
      obtain ⟨atName, stepped, facesLater⟩ :=
        continues.exists_next (begins_after_blanks atLater areBetween inside)
      cases fuel with
      | zero => exact absurd enough (Nat.not_lt_zero _)
      | succ fuel =>
          have fewer : laterFields.length < fuel := by
            simp only [List.length_append, List.length_cons] at enough
            omega
          obtain ⟨first, later, afterFirst, after, rfl, readFirst, readLater, standsLast⟩ :=
            ih (facesLater.stands areBetween atLater) fewer
          refine ⟨_, _, afterName, after, rfl, read, ?_, ?_⟩
          · rw [moreNames, if_pos (congrArg Token.lexeme dot)]
            refine bind_eq_ok_iff.mpr ⟨atName, stepped, bind_eq_ok_iff.mpr ⟨_, readFirst, ?_⟩⟩
            exact bind_eq_ok_iff.mpr ⟨_, readLater, rfl⟩
          · simpa [Symbol.text] using standsLast

theorem starts_of_filterValue {start position : Nat} {value : Operand}
    (isValue : FilterValue start word value position) (stops : Stops continuesInteger tail) :
    Starts (word ++ tail) := by
  cases isValue with
  | bound isBound => exact starts_of_bound isBound stops
  | quoted spells =>
      cases spells with
      | mk isQuote body => exact (Reads.quoted isQuote body tail).starts

theorem filter_complete {body : List Char} {filter : Path.Filter}
    (stands : parser.Stands before ('{' :: (body ++ '}' :: tail)) 0)
    (isBody : FilterBody (byteLength before + 1) body filter) (begins : Begins tail 0) :
    ∃ after, parser.filter = .ok (.filter filter, after) ∧
      after.Faces (before ++ '{' :: (body ++ ['}'])) tail 0 := by
  cases isBody with
  | @mk blanks fields middle names isBlanks isPath areMiddle between word behind value position
      areBetween isValue areBehind =>
      have opened : parser.Stands before (Symbol.openBrace.text ++ (blanks ++ (fields ++ (middle ++
          (Symbol.equals.text ++ (between ++ (word ++ (behind ++
            (Symbol.closeBrace.text ++ tail))))))))) 0 := by
        simpa [Symbol.text] using stands
      obtain ⟨_, continues⟩ := opened.at_symbol
      have stops : Stops continuesInteger (behind ++ (Symbol.closeBrace.text ++ tail)) :=
        stops_before_symbol areBehind (.inr (.inr rfl))
      have atClosing := (Reads.symbol .closeBrace tail).starts
      have atWord := starts_of_filterValue isValue stops
      have atFields := starts_of_fieldPath isPath (stops_before_equals areMiddle
        (between ++ (word ++ (behind ++ (Symbol.closeBrace.text ++ tail)))))
      obtain ⟨inside, stepped, faces⟩ :=
        continues.exists_next (begins_after_blanks atFields isBlanks Nat.one_ne_zero)
      have standsAtName := faces.stands isBlanks atFields
      have enough : fields.length < parser.source.length + 1 := by
        rw [stands.source]
        simp only [List.length_append, List.length_cons]
        omega
      obtain ⟨first, later, afterName, atEquals, rfl, readFirst, readLater, standsAtEquals⟩ :=
        fieldPath_complete standsAtName Nat.one_ne_zero isPath areMiddle enough
      obtain ⟨atValue, readEquals, facesValue⟩ := expect_complete standsAtEquals
        (begins_after_blanks atWord areBetween Nat.one_ne_zero) .expectedEquals
      have standsAtValue := facesValue.stands areBetween atWord
      rw [← position_of_value] at isValue
      obtain ⟨atClose, readValue, valueStart, facesClose⟩ := filterValue_complete standsAtValue
        Nat.one_ne_zero isValue stops (begins_after_blanks atClosing areBehind Nat.one_ne_zero)
      have standsAtClose := facesClose.stands areBehind atClosing
      obtain ⟨after, closed, facesAfter⟩ := expect_complete standsAtClose begins .unclosedFilter
      obtain ⟨_, _, _, _, _, nameStart, _⟩ := identifier_sound standsAtName readFirst
      rw [Text.byteLength_append, byteLength_append_symbol] at nameStart
      have written := written_of_stands opened standsAtClose
      refine ⟨after, ?_, ?_⟩
      · refine bind_eq_ok_iff.mpr ⟨inside, stepped, bind_eq_ok_iff.mpr ⟨_, readFirst, ?_⟩⟩
        refine bind_eq_ok_iff.mpr ⟨_, readLater, bind_eq_ok_iff.mpr ⟨_, readEquals, ?_⟩⟩
        refine bind_eq_ok_iff.mpr ⟨_, readValue, bind_eq_ok_iff.mpr ⟨_, closed, ?_⟩⟩
        dsimp only
        rw [written, nameStart, valueStart]
        rfl
      · simpa [Symbol.text, depthAfter] using facesAfter

/-! ## Whole paths -/

/-- Components end the text, or start with one of three symbols. -/
theorem front_of_components {start : Nat} {rest : List Char} {components : List Path.Component}
    {modifier : Option Modifier} (isRest : Components start rest components modifier) :
    rest = [] ∨ ∃ symbol tail, rest = Symbol.text symbol ++ tail ∧
      (symbol = .dot ∨ symbol = .openBracket ∨ symbol = .openBrace) := by
  cases isRest with
  | nil => exact .inl rfl
  | json => exact .inr ⟨.dot, _, rfl, .inl rfl⟩
  | cons first rest =>
      cases first with
      | name isName => exact .inr ⟨.dot, _, rfl, .inl rfl⟩
      | index isBody => exact .inr ⟨.openBracket, _, rfl, .inr (.inl rfl)⟩
      | filter isBody => exact .inr ⟨.openBrace, _, rfl, .inr (.inr rfl)⟩

theorem starts_of_components {start : Nat} {rest : List Char} {components : List Path.Component}
    {modifier : Option Modifier} (isRest : Components start rest components modifier) :
    Starts rest := by
  rcases front_of_components isRest with rfl | ⟨symbol, tail, rfl, _⟩
  · exact Reads.endOfText.starts
  · exact (Reads.symbol symbol tail).starts

theorem stops_of_components {start : Nat} {rest : List Char} {components : List Path.Component}
    {modifier : Option Modifier} (isRest : Components start rest components modifier)
    {p : Char → Bool} (noDot : p '.' = false) (noBracket : p '[' = false)
    (noBrace : p '{' = false) : Stops p rest := by
  rcases front_of_components isRest with rfl | ⟨symbol, tail, rfl, rfl | rfl | rfl⟩
  · exact .nil
  · exact .cons noDot
  · exact .cons noBracket
  · exact .cons noBrace

/-- At the end of the text a parser stands at the token that ends it. -/
theorem lexeme_eq_endOfText (stands : parser.Stands before [] depth) :
    parser.token.lexeme = .endOfText := by
  have atEnd : parser.Stands before ([] ++ []) depth := stands
  exact congrArg Token.lexeme (atEnd.token_eq .endOfText).1

theorem modifier_complete (stands : parser.Stands before ['@', 'j', 's', 'o', 'n'] 0) :
    parser.token.lexeme = .symbol .atSign ∧ parser.modifier = .ok .json := by
  have letters : ['s', 'o', 'n'].all isIdentifierChar = true := rfl
  have isName : Identifier ['j', 's', 'o', 'n'] := .mk (.inl (isLetter_iff.mpr rfl))
    fun c member => isIdentifierChar_iff.mp (List.all_eq_true.mp letters c member)
  have opened : parser.Stands before (Symbol.atSign.text ++ (['j', 's', 'o', 'n'] ++ [])) 0 :=
    stands
  obtain ⟨sign, continues⟩ := opened.at_symbol
  have atWord := (Reads.identifier isName (Stops.nil)).starts
  obtain ⟨atName, stepped, faces⟩ := continues.exists_next (begins_of_starts atWord 0)
  obtain ⟨after, named, facesEnd⟩ := identifier_complete faces.stands_of_zero isName Stops.nil
    (begins_of_starts Reads.endOfText.starts 0)
  have ends := lexeme_eq_endOfText facesEnd.stands_of_zero
  refine ⟨congrArg Token.lexeme sign, ?_⟩
  refine bind_eq_ok_iff.mpr ⟨atName, stepped, bind_eq_ok_iff.mpr ⟨_, named, ?_⟩⟩
  dsimp only
  rw [if_pos rfl, if_pos ends]
  rfl

/-- One round of the loop reads a component and leaves the text behind it to the rest. -/
theorem component_complete {later : List Char} {component : Path.Component}
    (stands : parser.Stands before (word ++ later) 0)
    (isComponent : Grammar.Component (byteLength before) word component)
    (stops : Stops isIdentifierChar later) (begins : Begins later 0) :
    ∃ after : Parser, after.Faces (before ++ word) later 0 ∧
      ∀ {fuel : Nat} {others : List Path.Component} {modifier : Option Modifier},
        after.components fuel = .ok (others, modifier) →
        parser.components (fuel + 1) = .ok (component :: others, modifier) := by
  cases isComponent with
  | @name name isName =>
      have opened : parser.Stands before (Symbol.dot.text ++ (name ++ later)) 0 := stands
      obtain ⟨dot, continues⟩ := opened.at_symbol
      have reads := Reads.identifier isName stops
      obtain ⟨atName, stepped, facesName⟩ :=
        continues.exists_next (begins_of_starts reads.starts 0)
      have standsAtName := facesName.stands_of_zero
      obtain ⟨after, named, faces⟩ := identifier_complete standsAtName isName stops begins
      have noSign : atName.token.lexeme ≠ .symbol .atSign := by
        rw [(standsAtName.token_eq reads).1]
        simp
      refine ⟨after, ?_, fun othersRead => ?_⟩
      · simpa [Symbol.text] using faces
      · simp only [Parser.components, dot]
        refine bind_eq_ok_iff.mpr ⟨atName, stepped, ?_⟩
        rw [if_neg noSign]
        exact bind_eq_ok_iff.mpr ⟨_, named, bind_eq_ok_iff.mpr ⟨_, othersRead, rfl⟩⟩
  | @index body component isBody =>
      have opened : parser.Stands before (Symbol.openBracket.text ++ (body ++ ']' :: later)) 0 := by
        simpa [Symbol.text] using stands
      obtain ⟨after, read, faces⟩ := indexOrSlice_complete opened isBody begins
      refine ⟨after, faces, fun othersRead => ?_⟩
      simp only [Parser.components, opened.at_symbol.1]
      exact bind_eq_ok_iff.mpr ⟨_, read, bind_eq_ok_iff.mpr ⟨_, othersRead, rfl⟩⟩
  | @filter body filter isBody =>
      have opened : parser.Stands before (Symbol.openBrace.text ++ (body ++ '}' :: later)) 0 := by
        simpa [Symbol.text] using stands
      obtain ⟨after, read, faces⟩ := filter_complete opened isBody begins
      refine ⟨after, faces, fun othersRead => ?_⟩
      simp only [Parser.components, opened.at_symbol.1]
      exact bind_eq_ok_iff.mpr ⟨_, read, bind_eq_ok_iff.mpr ⟨_, othersRead, rfl⟩⟩

theorem json_complete
    (stands : parser.Stands before ['.', '@', 'j', 's', 'o', 'n'] 0) (fuel : Nat) :
    parser.components (fuel + 1) = .ok ([], some .json) := by
  have opened : parser.Stands before (Symbol.dot.text ++ ['@', 'j', 's', 'o', 'n']) 0 := stands
  obtain ⟨dot, continues⟩ := opened.at_symbol
  have atSign := (Reads.symbol .atSign ['j', 's', 'o', 'n']).starts
  obtain ⟨atName, stepped, faces⟩ := continues.exists_next (begins_of_starts atSign 0)
  obtain ⟨sign, modified⟩ := modifier_complete faces.stands_of_zero
  simp only [Parser.components, dot]
  refine bind_eq_ok_iff.mpr ⟨atName, stepped, ?_⟩
  rw [if_pos sign]
  exact bind_eq_ok_iff.mpr ⟨_, modified, rfl⟩

/-- Each component has at least one character, so the length of the text is fuel enough. -/
theorem components_complete {start fuel : Nat} {rest : List Char}
    {components : List Path.Component} {modifier : Option Modifier}
    (stands : parser.Stands before rest 0)
    (isRest : Components start rest components modifier) (place : byteLength before = start)
    (enough : rest.length ≤ fuel) :
    parser.components (fuel + 1) = .ok (components, modifier) := by
  induction isRest generalizing parser before fuel with
  | nil => simp only [Parser.components, lexeme_eq_endOfText stands]
  | json => exact json_complete stands fuel
  | @cons start word later component others modifier first rest ih =>
      have stops : Stops isIdentifierChar later := stops_of_components rest rfl rfl rfl
      have nonempty : 0 < word.length := by
        cases first <;> exact Nat.succ_pos _
      rw [List.length_append] at enough
      obtain ⟨fuel, rfl⟩ : ∃ less, fuel = less + 1 := ⟨fuel - 1, by omega⟩
      rw [← place] at first
      obtain ⟨after, faces, onward⟩ := component_complete stands first stops
        (begins_of_starts (starts_of_components rest) 0)
      refine onward (ih faces.stands_of_zero ?_ ?_)
      · rw [Text.byteLength_append, place]
      · omega

theorem path_complete {topic later : List Char} {components : List Path.Component}
    {modifier : Option Modifier} (isTopic : Topic topic)
    (isRest : Components (byteLength topic) later components modifier) :
    ∃ parser, start (topic ++ later) = .ok parser ∧
      parser.path = .ok { source := String.ofList (topic ++ later), topic := String.ofList topic,
                          components, modifier } := by
  cases isTopic with
  | @mk first run allowed =>
      have inside : ∀ c ∈ first :: run, isTopicChar c = true :=
        fun c member => isTopicChar_iff.mpr (allowed c member)
      have stops : Stops isTopicChar later := stops_of_components isRest rfl rfl rfl
      have long : 1 < byteLength ('/' :: first :: run) := by
        have slash : '/'.utf8Size = 1 := rfl
        have positive := first.utf8Size_pos
        simp only [byteLength, slash]
        omega
      refine ⟨_, start_eq inside stops, ?_⟩
      have continues : Continues ⟨'/' :: (first :: run ++ later), ⟨.topic ('/' :: first :: run), 0⟩,
          ⟨later, byteLength ('/' :: first :: run), 0⟩⟩ ('/' :: first :: run) later 0 :=
        ⟨rfl, by simp, rfl⟩
      obtain ⟨after, stepped, faces⟩ :=
        continues.exists_next (begins_of_starts (starts_of_components isRest) 0)
      have enough : later.length ≤ ('/' :: (first :: run ++ later)).length := by
        simp only [List.length_append, List.length_cons]
        omega
      have read := components_complete faces.stands_of_zero isRest rfl enough
      refine bind_eq_ok_iff.mpr ⟨(String.ofList ('/' :: first :: run), after), ?_, ?_⟩
      · simp only [topic]
        rw [if_pos long]
        exact bind_eq_ok_iff.mpr ⟨after, stepped, rfl⟩
      · exact bind_eq_ok_iff.mpr ⟨_, read, rfl⟩

end Parser

theorem parse?_eq_some {text : String} {path : Path} (small : text.utf8ByteSize ≤ 2 ^ 32 - 3) :
    parse? text = some path ↔
      ∃ parser, Parser.start text.toList = .ok parser ∧ parser.path = .ok path :=
  parse?_eq_some_of_fits (Nat.not_lt.mpr small)

/-- The parser accepts the texts of the grammar, and gives the path that the grammar derives. -/
theorem parse?_eq_some_iff {text : String} {path : Path} (small : text.utf8ByteSize ≤ 2 ^ 32 - 3) :
    parse? text = some path ↔ Derives text path := by
  rw [parse?_eq_some small]
  constructor
  · rintro ⟨parser, starts, reads⟩
    have derived := Parser.path_sound starts reads
    rw [String.ofList_toList] at derived
    exact derived
  · intro derived
    cases derived with
    | mk isTopic rest =>
        rw [String.toList_ofList]
        exact Parser.path_complete isTopic rest

theorem parse?_eq_some_iff_slice :
    Derives "/a[ -1 : $n ].b.@json"
      { source := "/a[ -1 : $n ].b.@json"
        topic := "/a"
        components :=
          [.slice (some (.literal (.ofInt (-1)))) (some (.reference "n" 9)), .name "b"]
        modifier := some .json } :=
  (parse?_eq_some_iff (by decide)).mp rfl

end MessageQuery.Path
