import MessageQuery.Proofs.Path.Standing

/-!
# What the parser reads is in the grammar

Each reading function that succeeds has read a phrase of the grammar: the text at which the parser
stood is the phrase and what the parser faces afterwards, and the result is what the phrase means
at its position.
-/

namespace MessageQuery.Path

open Cursor Grammar
open Text (byteLength)

namespace Parser

variable {parser after : Parser} {before rest : List Char} {depth : Nat}

/-! ## Tokens -/

theorem identifier_sound (stands : parser.Stands before rest depth) {name : String}
    (succeeds : parser.identifier = .ok (name, after)) :
    ∃ word tail, rest = word ++ tail ∧ Identifier word ∧ name = String.ofList word ∧
      parser.token.start = byteLength before ∧ after.Faces (before ++ word) tail depth := by
  unfold identifier at succeeds
  split at succeeds
  · next isName =>
      obtain ⟨next, stepped, same⟩ := bind_eq_ok_iff.mp succeeds
      cases same
      obtain ⟨word, tail, rfl, reads, start, continues⟩ := stands.exists_word
      rw [isName] at reads start continues
      cases reads with
      | identifier isName stops =>
          exact ⟨_, tail, rfl, isName, rfl, start, continues.next_eq_ok_iff.mp stepped⟩
  · cases succeeds

theorem expect_sound (stands : parser.Stands before rest depth) {symbol : Symbol} {cause : Fault}
    (succeeds : parser.expect symbol cause = .ok after) :
    ∃ tail, rest = symbol.text ++ tail ∧ parser.token.start = byteLength before ∧
      after.Faces (before ++ symbol.text) tail (depthAfter depth symbol) := by
  unfold expect at succeeds
  split at succeeds
  · next isSymbol =>
      obtain ⟨tail, rfl, start, continues⟩ := stands.exists_symbol isSymbol
      exact ⟨tail, rfl, start, continues.next_eq_ok_iff.mp succeeds⟩
  · cases succeeds

/-! ## Operands -/

theorem reference_sound (stands : parser.Stands before rest depth)
    (isDollar : parser.token.lexeme = .symbol .dollar) {operand : Operand}
    (succeeds : parser.reference = .ok (operand, after)) :
    ∃ word tail, rest = word ++ tail ∧ Reference (byteLength before) word operand ∧
      after.Faces (before ++ word) tail depth := by
  obtain ⟨inside, stepped, named⟩ := bind_eq_ok_iff.mp succeeds
  obtain ⟨⟨name, last⟩, named, same⟩ := bind_eq_ok_iff.mp named
  cases same
  obtain ⟨tail, rfl, start, continues⟩ := stands.exists_symbol isDollar
  obtain ⟨blanks, atName, rfl, isBlanks, _, standsAtName⟩ := continues.next_eq_ok_iff.mp stepped
  obtain ⟨word, tail, rfl, isName, rfl, _, faces⟩ := identifier_sound standsAtName named
  refine ⟨'$' :: (blanks ++ word), tail, by simp [Symbol.text], ?_, ?_⟩
  · rw [start]
    exact .mk isBlanks isName
  · simpa [Symbol.text, depthAfter] using faces

/-- A literal whose token is an integer. -/
theorem integer_sound (stands : parser.Stands before rest depth) {digits : List Char}
    (isInteger : parser.token.lexeme = .integer digits) (stepped : parser.next = .ok after) :
    ∃ word tail, rest = word ++ tail ∧ Bound (byteLength before) word (.literal (integer digits)) ∧
      after.Faces (before ++ word) tail depth := by
  obtain ⟨word, tail, rfl, reads, _, continues⟩ := stands.exists_word
  rw [isInteger] at reads continues
  cases reads with
  | integer spells stops =>
      refine ⟨digits, tail, rfl, ?_, continues.next_eq_ok_iff.mp stepped⟩
      rw [integer, spells.intOfDigits?_eq]
      exact .integer spells

theorem bound_sound (stands : parser.Stands before rest depth) {bound? : Option Operand}
    (succeeds : parser.bound = .ok (bound?, after)) :
    ∃ word tail, rest = word ++ tail ∧ OptionalBound (byteLength before) word bound? ∧
      after.Faces (before ++ word) tail depth := by
  unfold bound at succeeds
  split at succeeds
  · next isInteger =>
      obtain ⟨next, stepped, same⟩ := bind_eq_ok_iff.mp succeeds
      cases same
      obtain ⟨word, tail, rfl, bound, faces⟩ := integer_sound stands isInteger stepped
      exact ⟨word, tail, rfl, .present bound, faces⟩
  · next isDollar =>
      obtain ⟨⟨operand, last⟩, refers, same⟩ := bind_eq_ok_iff.mp succeeds
      cases same
      obtain ⟨word, tail, rfl, reference, faces⟩ := reference_sound stands isDollar refers
      exact ⟨word, tail, rfl, .present (.reference reference), faces⟩
  · cases succeeds
    refine ⟨[], rest, rfl, .absent, ?_⟩
    rw [List.append_nil]
    exact stands.faces

theorem filterValue_sound (stands : parser.Stands before rest depth) {value : Operand}
    (succeeds : parser.filterValue = .ok (value, after)) :
    ∃ word tail, rest = word ++ tail ∧
      FilterValue (byteLength before) word value parser.token.start ∧
      after.Faces (before ++ word) tail depth := by
  have start : ∀ lexeme, parser.token.lexeme = lexeme →
      parser.token.start = byteLength before + lexeme.lead := by
    rintro lexeme rfl
    obtain ⟨_, _, _, _, start, _⟩ := stands.exists_word
    exact start
  unfold filterValue at succeeds
  split at succeeds
  · next isInteger =>
      obtain ⟨next, stepped, same⟩ := bind_eq_ok_iff.mp succeeds
      cases same
      obtain ⟨word, tail, rfl, bound, faces⟩ := integer_sound stands isInteger stepped
      rw [start _ isInteger]
      exact ⟨word, tail, rfl, .bound bound, faces⟩
  · next isQuoted =>
      obtain ⟨next, stepped, same⟩ := bind_eq_ok_iff.mp succeeds
      cases same
      obtain ⟨word, tail, rfl, reads, _, continues⟩ := stands.exists_word
      rw [isQuoted] at reads continues
      rw [start _ isQuoted]
      cases reads with
      | quoted isQuote body =>
          refine ⟨_, tail, rfl, ?_, continues.next_eq_ok_iff.mp stepped⟩
          rw [body.unescape_eq]
          exact .quoted (.mk isQuote body)
  · next isDollar =>
      obtain ⟨word, tail, rfl, reference, faces⟩ := reference_sound stands isDollar succeeds
      rw [start _ isDollar]
      exact ⟨word, tail, rfl, .bound (.reference reference), faces⟩
  · cases succeeds

/-! ## Brackets -/

/-- A bound that may be left out, with the blanks around it. -/
theorem bound_sound_of_faces (faces : parser.Faces before rest depth) {bound? : Option Operand}
    (succeeds : parser.bound = .ok (bound?, after)) :
    ∃ blanks word behind tail, rest = blanks ++ (word ++ (behind ++ tail)) ∧ Blanks blanks ∧
      OptionalBound (byteLength before + byteLength blanks) word bound? ∧ Blanks behind ∧
      after.Stands (before ++ (blanks ++ (word ++ behind))) tail depth := by
  obtain ⟨blanks, _, rfl, isBlanks, _, stands⟩ := faces
  obtain ⟨word, _, rfl, isBound, faces⟩ := bound_sound stands succeeds
  obtain ⟨behind, tail, rfl, areBlanks, _, standsBehind⟩ := faces
  rw [Text.byteLength_append] at isBound
  refine ⟨blanks, word, behind, tail, rfl, isBlanks, isBound, areBlanks, ?_⟩
  simpa using standsBehind

theorem closeBracket_sound (stands : parser.Stands before rest (depth + 1))
    (succeeds : parser.expect .closeBracket .unclosedIndex = .ok after) :
    ∃ tail, rest = ']' :: tail ∧ after.Faces (before ++ [']']) tail depth := by
  obtain ⟨tail, split, _, faces⟩ := expect_sound stands succeeds
  exact ⟨tail, split, faces⟩

theorem indexOrSlice_sound (stands : parser.Stands before rest depth)
    (isOpen : parser.token.lexeme = .symbol .openBracket) {component : Path.Component}
    (succeeds : parser.indexOrSlice = .ok (component, after)) :
    ∃ word tail, rest = word ++ tail ∧ Grammar.Component (byteLength before) word component ∧
      after.Faces (before ++ word) tail depth := by
  obtain ⟨inside, stepped, onward⟩ := bind_eq_ok_iff.mp succeeds
  obtain ⟨⟨first, afterFirst⟩, firstRead, onward⟩ := bind_eq_ok_iff.mp onward
  obtain ⟨_, rfl, _, continues⟩ := stands.exists_symbol isOpen
  obtain ⟨blanks, word, middle, _, rfl, isBlanks, isFirst, areMiddle, standsBehind⟩ :=
    bound_sound_of_faces (continues.next_eq_ok_iff.mp stepped) firstRead
  rw [byteLength_append_symbol] at isFirst
  dsimp only at onward
  split at onward
  · next isColon =>
      obtain ⟨atSecond, secondStepped, onward⟩ := bind_eq_ok_iff.mp onward
      obtain ⟨⟨second, afterSecond⟩, secondRead, onward⟩ := bind_eq_ok_iff.mp onward
      obtain ⟨last, closed, same⟩ := bind_eq_ok_iff.mp onward
      cases same
      obtain ⟨_, rfl, _, continuesAtColon⟩ := standsBehind.exists_symbol isColon
      obtain ⟨between, secondWord, behind, _, rfl, areBetween, isSecond, areBehind, standsLast⟩ :=
        bound_sound_of_faces (continuesAtColon.next_eq_ok_iff.mp secondStepped) secondRead
      obtain ⟨tail, rfl, faces⟩ := closeBracket_sound standsLast closed
      rw [position_of_stop] at isSecond
      refine ⟨_, tail, ?_, .index (.slice isBlanks isFirst areMiddle areBetween isSecond areBehind),
        ?_⟩
      · simp [Symbol.text]
      · simpa [Symbol.text] using faces
  · cases first with
    | none => cases onward
    | some operand =>
        obtain ⟨last, closed, same⟩ := bind_eq_ok_iff.mp onward
        cases same
        obtain ⟨tail, rfl, faces⟩ := closeBracket_sound standsBehind closed
        cases isFirst with
        | present isBound =>
            refine ⟨_, tail, ?_, .index (.index isBlanks isBound areMiddle), ?_⟩
            · simp [Symbol.text]
            · simpa [Symbol.text] using faces

/-! ## Braces -/

/-- A field path ends where no dot follows. -/
theorem fieldPath_ends (faces : parser.Faces before rest depth) :
    ∃ word tail, rest = word ++ tail ∧
      (∀ name, Identifier name → FieldPath (name ++ word) [String.ofList name]) ∧
      parser.Faces (before ++ word) tail depth := by
  refine ⟨[], rest, rfl, fun name isName => ?_, ?_⟩
  · rw [List.append_nil]
    exact .last isName
  · rw [List.append_nil]
    exact faces

/-- The names after dots make a field path with the name before them. -/
theorem moreNames_sound {fuel : Nat} (faces : parser.Faces before rest depth)
    {names : List String} (succeeds : parser.moreNames fuel = .ok (names, after)) :
    ∃ word tail, rest = word ++ tail ∧
      (∀ name, Identifier name → FieldPath (name ++ word) (String.ofList name :: names)) ∧
      after.Faces (before ++ word) tail depth := by
  induction fuel generalizing parser before rest names with
  | zero =>
      cases succeeds
      exact fieldPath_ends faces
  | succ fuel ih =>
      unfold moreNames at succeeds
      split at succeeds
      · next isDot =>
          obtain ⟨atName, stepped, onward⟩ := bind_eq_ok_iff.mp succeeds
          obtain ⟨⟨first, afterFirst⟩, firstRead, onward⟩ := bind_eq_ok_iff.mp onward
          obtain ⟨⟨later, last⟩, laterRead, same⟩ := bind_eq_ok_iff.mp onward
          cases same
          obtain ⟨blanks, _, rfl, isBlanks, _, stands⟩ := faces
          obtain ⟨_, rfl, _, continues⟩ := stands.exists_symbol isDot
          obtain ⟨between, _, rfl, areBetween, _, standsAtName⟩ :=
            continues.next_eq_ok_iff.mp stepped
          obtain ⟨firstWord, _, rfl, isFirst, rfl, _, facesNext⟩ :=
            identifier_sound standsAtName firstRead
          obtain ⟨laterWord, tail, rfl, isPath, facesLast⟩ := ih facesNext laterRead
          refine ⟨blanks ++ '.' :: (between ++ (firstWord ++ laterWord)), tail, ?_, ?_, ?_⟩
          · simp [Symbol.text]
          · intro name isName
            exact .more isName isBlanks areBetween (isPath firstWord isFirst)
          · simpa [Symbol.text, depthAfter] using facesLast
      · cases succeeds
        exact fieldPath_ends faces

theorem filter_sound (stands : parser.Stands before rest depth)
    (isOpen : parser.token.lexeme = .symbol .openBrace) {component : Path.Component}
    (succeeds : parser.filter = .ok (component, after)) :
    ∃ word tail, rest = word ++ tail ∧ Grammar.Component (byteLength before) word component ∧
      after.Faces (before ++ word) tail depth := by
  obtain ⟨inside, stepped, onward⟩ := bind_eq_ok_iff.mp succeeds
  obtain ⟨⟨name, afterName⟩, nameRead, onward⟩ := bind_eq_ok_iff.mp onward
  obtain ⟨⟨names, afterNames⟩, namesRead, onward⟩ := bind_eq_ok_iff.mp onward
  obtain ⟨atValue, equalsRead, onward⟩ := bind_eq_ok_iff.mp onward
  obtain ⟨⟨value, atClose⟩, valueRead, onward⟩ := bind_eq_ok_iff.mp onward
  obtain ⟨last, closed, same⟩ := bind_eq_ok_iff.mp onward
  cases same
  obtain ⟨_, rfl, start, continues⟩ := stands.exists_symbol isOpen
  obtain ⟨blanks, _, rfl, isBlanks, _, standsAtName⟩ := continues.next_eq_ok_iff.mp stepped
  obtain ⟨nameWord, _, rfl, isName, rfl, nameStart, facesNames⟩ :=
    identifier_sound standsAtName nameRead
  obtain ⟨namesWord, _, rfl, isPath, facesEquals⟩ := moreNames_sound facesNames namesRead
  obtain ⟨middle, _, rfl, areMiddle, _, standsAtEquals⟩ := facesEquals
  obtain ⟨_, rfl, _, facesValue⟩ := expect_sound standsAtEquals equalsRead
  obtain ⟨between, _, rfl, areBetween, _, standsAtValue⟩ := facesValue
  obtain ⟨valueWord, _, rfl, isValue, facesClose⟩ := filterValue_sound standsAtValue valueRead
  obtain ⟨behind, _, rfl, areBehind, _, standsAtClose⟩ := facesClose
  obtain ⟨tail, rfl, _, facesLast⟩ := expect_sound standsAtClose closed
  rw [← List.append_assoc nameWord] at stands ⊢
  rw [List.append_assoc _ nameWord namesWord] at isValue standsAtClose facesLast
  rw [nameStart, Text.byteLength_append, byteLength_append_symbol,
    written_of_stands stands standsAtClose]
  rw [position_of_value] at isValue
  refine ⟨_, tail, ?_, .filter (.mk isBlanks (isPath nameWord isName) areMiddle areBetween isValue
    areBehind), ?_⟩
  · simp [Symbol.text]
  · simpa [Symbol.text, depthAfter] using facesLast

/-! ## Whole paths -/

/-- The modifier ends the text. -/
theorem modifier_sound (stands : parser.Stands before rest 0)
    (isSign : parser.token.lexeme = .symbol .atSign) {modifier : Modifier}
    (succeeds : parser.modifier = .ok modifier) :
    rest = ['@', 'j', 's', 'o', 'n'] ∧ modifier = .json := by
  obtain ⟨atName, stepped, onward⟩ := bind_eq_ok_iff.mp succeeds
  obtain ⟨⟨name, last⟩, nameRead, onward⟩ := bind_eq_ok_iff.mp onward
  dsimp only at onward
  split at onward
  · next isJson =>
      split at onward
      · next ends =>
          cases onward
          obtain ⟨_, rfl, _, continues⟩ := stands.exists_symbol isSign
          have standsAtName := (continues.next_eq_ok_iff.mp stepped).stands_of_zero
          obtain ⟨word, _, rfl, isName, same, _, faces⟩ := identifier_sound standsAtName nameRead
          obtain ⟨_, tail, rfl, reads, _⟩ := faces.stands_of_zero.exists_word
          rw [ends] at reads
          cases reads
          have spelled : String.ofList word = String.ofList ['j', 's', 'o', 'n'] :=
            same.symm.trans isJson
          rw [String.ofList_inj.mp spelled]
          exact ⟨rfl, rfl⟩
      · cases onward
  · cases onward

/-- One round of the loop ends the path, or reads a component and leaves the text behind it to the
rounds after it. -/
theorem components_cases {fuel : Nat} (stands : parser.Stands before rest 0)
    {components : List Path.Component} {modifier : Option Modifier}
    (succeeds : parser.components (fuel + 1) = .ok (components, modifier)) :
    (rest = [] ∧ components = [] ∧ modifier = none) ∨
      (rest = ['.', '@', 'j', 's', 'o', 'n'] ∧ components = [] ∧ modifier = some .json) ∨
      ∃ word tail component others, ∃ later : Parser, rest = word ++ tail ∧
        components = component :: others ∧ Grammar.Component (byteLength before) word component ∧
        later.Faces (before ++ word) tail 0 ∧
        later.components fuel = .ok (others, modifier) := by
  unfold Parser.components at succeeds
  split at succeeds
  · next ends =>
      cases succeeds
      obtain ⟨word, tail, rfl, reads, _⟩ := stands.exists_word
      rw [ends] at reads
      cases reads
      exact .inl ⟨rfl, rfl, rfl⟩
  · next isDot =>
      obtain ⟨atName, stepped, dotted⟩ := bind_eq_ok_iff.mp succeeds
      obtain ⟨_, rfl, _, continues⟩ := stands.exists_symbol isDot
      have standsAtName := (continues.next_eq_ok_iff.mp stepped).stands_of_zero
      split at dotted
      · next isSign =>
          obtain ⟨sign, signRead, same⟩ := bind_eq_ok_iff.mp dotted
          cases same
          obtain ⟨rfl, rfl⟩ := modifier_sound standsAtName isSign signRead
          exact .inr (.inl ⟨rfl, rfl, rfl⟩)
      · obtain ⟨⟨name, later⟩, nameRead, onward⟩ := bind_eq_ok_iff.mp dotted
        obtain ⟨_, laterRead, same⟩ := bind_eq_ok_iff.mp onward
        cases same
        obtain ⟨word, tail, rfl, isName, rfl, _, faces⟩ := identifier_sound standsAtName nameRead
        refine .inr (.inr ⟨'.' :: word, tail, _, _, later, rfl, rfl, .name isName, ?_, laterRead⟩)
        simpa [Symbol.text, depthAfter] using faces
  · next isOpen =>
      obtain ⟨⟨component, later⟩, componentRead, onward⟩ := bind_eq_ok_iff.mp succeeds
      obtain ⟨_, laterRead, same⟩ := bind_eq_ok_iff.mp onward
      cases same
      obtain ⟨word, tail, split, isComponent, faces⟩ :=
        indexOrSlice_sound stands isOpen componentRead
      exact .inr (.inr ⟨word, tail, _, _, later, split, rfl, isComponent, faces, laterRead⟩)
  · next isOpen =>
      obtain ⟨⟨component, later⟩, componentRead, onward⟩ := bind_eq_ok_iff.mp succeeds
      obtain ⟨_, laterRead, same⟩ := bind_eq_ok_iff.mp onward
      cases same
      obtain ⟨word, tail, split, isComponent, faces⟩ := filter_sound stands isOpen componentRead
      exact .inr (.inr ⟨word, tail, _, _, later, split, rfl, isComponent, faces, laterRead⟩)
  · cases succeeds

theorem components_sound {fuel : Nat} (stands : parser.Stands before rest 0)
    {components : List Path.Component} {modifier : Option Modifier}
    (succeeds : parser.components fuel = .ok (components, modifier)) :
    Components (byteLength before) rest components modifier := by
  induction fuel generalizing parser before rest components with
  | zero => cases succeeds
  | succ fuel ih =>
      obtain ⟨rfl, rfl, rfl⟩ | ⟨rfl, rfl, rfl⟩ |
        ⟨word, tail, component, others, later, rfl, rfl, isComponent, faces, laterRead⟩ :=
        components_cases stands succeeds
      · exact .nil
      · exact .json
      · have isRest := ih faces.stands_of_zero laterRead
        rw [Text.byteLength_append] at isRest
        exact .cons isComponent isRest

/-- A topic token that has a name gives the topic, and the parser reads on from the cursor. -/
theorem topic_sound_of_continues {run : List Char}
    (isTopic : parser.token.lexeme = .topic ('/' :: run))
    (allowed : ∀ c ∈ run, isTopicChar c = true) (continues : parser.Continues before rest 0)
    {name : String} (succeeds : parser.topic = .ok (name, after)) :
    Topic ('/' :: run) ∧ name = String.ofList ('/' :: run) ∧ after.Stands before rest 0 := by
  unfold topic at succeeds
  rw [isTopic] at succeeds
  dsimp only at succeeds
  split at succeeds
  · next long =>
      obtain ⟨next, stepped, same⟩ := bind_eq_ok_iff.mp succeeds
      cases same
      refine ⟨?_, rfl, (continues.next_eq_ok_iff.mp stepped).stands_of_zero⟩
      cases run with
      | nil => exact absurd long (by decide)
      | cons first later => exact .mk fun c member => isTopicChar_iff.mp (allowed c member)
  · cases succeeds

theorem lexeme_eq_topic {name : String} (succeeds : parser.topic = .ok (name, after)) :
    ∃ word, parser.token.lexeme = .topic word := by
  unfold topic at succeeds
  split at succeeds
  · next word isTopic => exact ⟨word, isTopic⟩
  · cases succeeds

theorem topic_sound {source : List Char} (starts : start source = .ok parser) {name : String}
    (succeeds : parser.topic = .ok (name, after)) :
    ∃ word tail, source = word ++ tail ∧ Topic word ∧ name = String.ofList word ∧
      after.Stands word tail 0 := by
  obtain ⟨_, isTopic⟩ := lexeme_eq_topic succeeds
  have slash : source.head? = some '/' := by
    apply Decidable.byContradiction
    intro noSlash
    exact lexeme_ne_topic starts noSlash _ isTopic
  obtain ⟨cs, rfl⟩ := List.head?_eq_some_iff.mp slash
  obtain ⟨run, tail, rfl, inside, stops⟩ := exists_run isTopicChar cs
  rw [start_eq inside stops] at starts
  cases starts
  obtain ⟨isName, rfl, stands⟩ :=
    topic_sound_of_continues rfl inside ⟨rfl, List.cons_ne_nil _ _, rfl⟩ succeeds
  exact ⟨'/' :: run, tail, rfl, isName, rfl, stands⟩

theorem path_sound {source : List Char} (starts : start source = .ok parser) {path : Path}
    (succeeds : parser.path = .ok path) : Derives (String.ofList source) path := by
  obtain ⟨⟨name, after⟩, topicRead, onward⟩ := bind_eq_ok_iff.mp succeeds
  obtain ⟨⟨components, modifier⟩, componentsRead, same⟩ := bind_eq_ok_iff.mp onward
  cases same
  obtain ⟨word, tail, rfl, isTopic, rfl, stands⟩ := topic_sound starts topicRead
  rw [source_of_start starts]
  exact .mk isTopic (components_sound stands componentsRead)

end Parser

/-- A text of admissible size reads as a path if the parser starts on it and finds the path. -/
theorem parse?_eq_some_of_fits {text : String} {path : Path}
    (fits : ¬maxByteLength < text.utf8ByteSize) :
    parse? text = some path ↔
      ∃ parser, Parser.start text.toList = .ok parser ∧ parser.path = .ok path := by
  unfold parse? parse open?
  rw [if_neg fits]
  cases Parser.start text.toList with
  | error diagnostic =>
      constructor
      · rintro ⟨⟩
      · rintro ⟨parser, ⟨⟩, _⟩
  | ok parser =>
      change (parser.path.mapError ReadError.rejected).toOption = some path ↔ _
      cases read : parser.path with
      | error diagnostic =>
          constructor
          · rintro ⟨⟩
          · rintro ⟨_, ⟨⟩, succeeds⟩
            cases read.symm.trans succeeds
      | ok found =>
          constructor
          · rintro ⟨⟩
            exact ⟨parser, rfl, read⟩
          · rintro ⟨_, ⟨⟩, succeeds⟩
            cases read.symm.trans succeeds
            rfl

/-- A text that reads as a path is derived by the grammar. -/
theorem derives_of_parse? {text : String} {path : Path} (reads : parse? text = some path) :
    Derives text path := by
  by_cases long : maxByteLength < text.utf8ByteSize
  · unfold parse? parse open? at reads
    rw [if_pos long] at reads
    cases reads
  · obtain ⟨parser, starts, read⟩ := (parse?_eq_some_of_fits long).mp reads
    have derived := Parser.path_sound starts read
    rw [String.ofList_toList] at derived
    exact derived

theorem source_of_parse? {text : String} {path : Path} (reads : parse? text = some path) :
    path.source = text := by
  cases derives_of_parse? reads
  rfl

end MessageQuery.Path
