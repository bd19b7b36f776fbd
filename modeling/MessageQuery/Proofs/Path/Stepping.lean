import MessageQuery.Proofs.Path.Composition

/-!
# Token steps before reading

A parser may be moved by token steps before it reads a path. A step that fails keeps the current
token, although the cursor has passed the characters in which the fault was found. Where the
current token is still the topic, the path is then read as if these characters were not there.
Behind a topic only a fault inside quotes passes any character, so this is where a text that does
not read can give a path.
-/

namespace MessageQuery.Path

open Cursor Grammar
open Text (byteLength)

/-- The faults of a quoted string. -/
def Fault.InQuotes : Fault → Prop
  | .unmatchedQuote _ | .invalidEscape => True
  | _ => False

/-- A word without characters stands at the end of the text. -/
theorem Grammar.Reads.tail_eq_nil {word tail : List Char} {lexeme : Lexeme}
    (reads : Reads word tail lexeme) (empty : word = []) : tail = [] := by
  by_cases isEnd : lexeme = .endOfText
  · subst isEnd
    cases reads
    rfl
  · exact absurd empty (reads.ne_nil isEnd)

/-! ## What a failed step passes -/

/-- The second cursor stands behind the given characters of the first. -/
structure Cursor.Skips (cursor : Cursor) (skipped : List Char) (after : Cursor) : Prop where
  rest : cursor.rest = skipped ++ after.rest
  offset : after.offset = cursor.offset + byteLength skipped
  depth : after.depth = cursor.depth

namespace Cursor

variable {cursor middle after : Cursor} {skipped others : List Char} {diagnostic : Diagnostic}

theorem Skips.trans (first : cursor.Skips skipped middle) (second : middle.Skips others after) :
    cursor.Skips (skipped ++ others) after := by
  refine ⟨?_, ?_, second.depth.trans first.depth⟩
  · rw [first.rest, second.rest, List.append_assoc]
  · rw [second.offset, first.offset, Text.byteLength_append, Nat.add_assoc]

theorem skips_advance (cursor : Cursor) (count : Nat) :
    cursor.Skips (cursor.rest.take count) (cursor.advance count) :=
  ⟨(List.take_append_drop count cursor.rest).symm, rfl, rfl⟩

theorem skips_skipBlanks (cursor : Cursor) : ∃ skipped, cursor.Skips skipped cursor.skipBlanks := by
  unfold skipBlanks
  split
  · exact ⟨[], rfl, rfl, rfl⟩
  · exact ⟨_, skips_advance cursor _⟩

theorem readInteger_error (fails : cursor.readInteger = (.error diagnostic, after)) :
    diagnostic.fault = .invalidNumber ∧ ∃ skipped, cursor.Skips skipped after := by
  simp only [readInteger, Cursor.take] at fails
  split at fails
  · split at fails
    · cases fails
      exact ⟨rfl, _, skips_advance cursor _⟩
    · cases fails
  · cases fails

/-- A fault inside quotes passes at least the opening quote. -/
theorem readQuoted_error {quote : Char} {rest : List Char} {offset depth : Nat}
    (fails : (⟨quote :: rest, offset, depth⟩ : Cursor).readQuoted quote =
      (.error diagnostic, after)) :
    diagnostic.fault.InQuotes ∧
      ∃ skipped, (⟨quote :: rest, offset, depth⟩ : Cursor).Skips (quote :: skipped) after := by
  have opening := skips_advance ⟨quote :: rest, offset, depth⟩ 1
  simp only [readQuoted] at fails
  split at fails
  · cases fails
  · cases fails
    exact ⟨trivial, _, (opening.trans (skips_advance _ _)).trans (skips_advance _ _)⟩
  · cases fails
    exact ⟨trivial, _, opening.trans (skips_advance _ _)⟩

/-- What a failed step passes is told by the character at which it starts. -/
theorem readToken_error (fails : cursor.readToken = (.error diagnostic, after)) :
    (diagnostic.fault = .invalidCharacter ∧ after = cursor) ∨
      ∃ c rest skipped, cursor.rest = c :: rest ∧ cursor.Skips skipped after ∧
        ((diagnostic.fault = .invalidNumber ∧ isIntegerStart c = true) ∨
          (diagnostic.fault.InQuotes ∧ isQuote c = true ∧ skipped.head? = some c)) := by
  obtain ⟨text, offset, depth⟩ := cursor
  unfold readToken at fails
  cases text with
  | nil => cases fails
  | cons c rest =>
      cases isSymbol : Symbol.ofChar? c with
      | some symbol =>
          simp only [isSymbol] at fails
          cases fails
      | none =>
          simp only [isSymbol] at fails
          split at fails
          · cases fails
          · split at fails
            · next starts =>
                obtain ⟨isNumber, skipped, skips⟩ := readInteger_error fails
                refine .inr ⟨c, rest, skipped, rfl, skips, .inl ⟨isNumber, ?_⟩⟩
                rw [Bool.or_eq_true, Bool.and_eq_true] at starts
                rw [isIntegerStart, Bool.or_eq_true]
                exact starts.imp_right And.left
            · split at fails
              · next quote =>
                  obtain ⟨inQuotes, skipped, skips⟩ := readQuoted_error fails
                  exact .inr ⟨c, rest, _, rfl, skips, .inr ⟨inQuotes, quote, rfl⟩⟩
              · split at fails
                · cases fails
                · cases fails
                  exact .inl ⟨rfl, rfl⟩

theorem next_error (fails : cursor.next = (.error diagnostic, after)) :
    ∃ skipped, cursor.Skips skipped after := by
  unfold next at fails
  split at fails
  · cases fails
  · obtain ⟨blanks, passed⟩ := cursor.skips_skipBlanks
    obtain ⟨_, rfl⟩ | ⟨_, _, skipped, _, skips, _⟩ := readToken_error fails
    · exact ⟨blanks, passed⟩
    · exact ⟨blanks ++ skipped, passed.trans skips⟩

end Cursor

namespace Parser

/-- Takes so many steps, whether they fail or not. -/
def steps : Nat → Parser → List (Option Diagnostic) × Parser
  | 0, parser => ([], parser)
  | count + 1, parser =>
      let (outcome, after) := parser.step
      let (outcomes, last) := after.steps count
      (outcome :: outcomes, last)

variable {parser after : Parser} {outcome : Option Diagnostic} {count : Nat}
  {outcomes : List (Option Diagnostic)}

theorem steps_succ (stepped : parser.steps (count + 1) = (outcomes, after)) :
    ∃ outcome later next, outcomes = outcome :: later ∧ parser.step = (outcome, next) ∧
      next.steps count = (later, after) := by
  cases stepped
  exact ⟨_, _, _, rfl, rfl, rfl⟩

/-! ## Past the topic -/

/-- The current token is no topic, and no topic can follow. -/
structure PastTopic (parser : Parser) : Prop where
  noTopic : ∀ name, parser.token.lexeme ≠ .topic name
  begun : parser.cursor.offset = 0 → parser.cursor.rest = []

/-- A word is no topic, and takes a character unless the text has ended. -/
theorem pastTopic_of_readToken {source : List Char} {cursor later : Cursor} {token : Token}
    (reads : cursor.readToken = (.ok token, later)) : PastTopic ⟨source, token, later⟩ := by
  obtain ⟨text, offset, depth⟩ := cursor
  obtain ⟨word, tail, rfl, isWord⟩ := reads_of_readToken reads
  have step := readToken_of_reads isWord offset depth
  rw [reads, Prod.mk.injEq, Except.ok.injEq] at step
  obtain ⟨-, rfl⟩ := step
  constructor
  · intro name isTopic
    dsimp only at isTopic
    rw [isTopic] at isWord
    cases isWord
  · intro (atStart : offset + byteLength word = 0)
    have empty : word = [] := by
      apply Decidable.byContradiction
      intro nonempty
      have := Text.byteLength_ne_zero nonempty
      omega
    exact isWord.tail_eq_nil empty

theorem PastTopic.step (past : parser.PastTopic) : parser.step.2.PastTopic := by
  have noSlash : ¬(parser.cursor.offset = 0 ∧ parser.cursor.rest.head? = some '/') := by
    rintro ⟨atStart, slash⟩
    rw [past.begun atStart] at slash
    cases slash
  unfold Parser.step
  cases read : parser.cursor.next with
  | mk result cursor =>
      cases result with
      | ok token =>
          rw [Cursor.next, if_neg noSlash] at read
          exact pastTopic_of_readToken read
      | error diagnostic =>
          obtain ⟨skipped, skips⟩ := Cursor.next_error read
          refine ⟨past.noTopic, ?_⟩
          intro (atStart : cursor.offset = 0)
          rw [skips.offset, Nat.add_eq_zero_iff] at atStart
          have rest := skips.rest
          rw [past.begun atStart.1] at rest
          exact (List.append_eq_nil_iff.mp rest.symm).2

theorem PastTopic.steps (past : parser.PastTopic)
    (stepped : parser.steps count = (outcomes, after)) : after.PastTopic := by
  induction count generalizing parser outcomes with
  | zero =>
      cases stepped
      exact past
  | succ count ih =>
      obtain ⟨outcome, later, next, -, first, rest⟩ := steps_succ stepped
      have pastNext := past.step
      rw [first] at pastNext
      exact ih pastNext rest

theorem PastTopic.path_ne_ok (past : parser.PastTopic) (path : Path) : parser.path ≠ .ok path := by
  intro succeeds
  obtain ⟨⟨_, _⟩, topicRead, _⟩ := bind_eq_ok_iff.mp succeeds
  obtain ⟨name, isTopic⟩ := lexeme_eq_topic topicRead
  exact past.noTopic name isTopic

/-- Reading a path starts with a step. -/
theorem path_ne_ok_of_fault (fails : parser.step.1 ≠ none) (path : Path) :
    parser.path ≠ .ok path := by
  intro succeeds
  obtain ⟨⟨_, _⟩, topicRead, _⟩ := bind_eq_ok_iff.mp succeeds
  unfold topic at topicRead
  split at topicRead
  · split at topicRead
    · obtain ⟨_, stepped, _⟩ := bind_eq_ok_iff.mp topicRead
      unfold next at stepped
      split at stepped
      · next first => exact fails (congrArg Prod.fst first)
      · cases stepped
    · cases topicRead
  · cases topicRead

/-- A failed step that passes nothing fails again and again. -/
theorem steps_of_stuck (stuck : parser.step.2 = parser)
    (stepped : parser.steps count = (outcomes, after)) : after = parser := by
  induction count generalizing outcomes with
  | zero =>
      cases stepped
      rfl
  | succ count ih =>
      obtain ⟨_, _, next, -, first, rest⟩ := steps_succ stepped
      rw [first] at stuck
      obtain rfl : next = parser := stuck
      exact ih rest

/-! ## At the topic -/

/-- The current token is the topic, and the cursor stands behind the skipped characters. -/
structure AtTopic (parser : Parser) (run skipped rest : List Char) : Prop where
  token : parser.token = ⟨.topic ('/' :: run), 0⟩
  allowed : ∀ c ∈ run, isTopicChar c = true
  continues : parser.Continues ('/' :: run ++ skipped) rest 0

variable {run skipped rest : List Char}

theorem atTopic_or_pastTopic {source : List Char} (starts : start source = .ok parser) :
    (∃ run rest, Stops isTopicChar rest ∧ parser.AtTopic run [] rest) ∨ parser.PastTopic := by
  by_cases slash : source.head? = some '/'
  · obtain ⟨cs, rfl⟩ := List.head?_eq_some_iff.mp slash
    obtain ⟨run, rest, rfl, inside, stops⟩ := exists_run isTopicChar cs
    rw [start_eq inside stops] at starts
    cases starts
    refine .inl ⟨run, rest, stops, rfl, inside, ?_, ?_, ?_⟩
    · rw [List.append_nil]
      rfl
    · simp
    · rw [List.append_nil]
  · exact .inr (pastTopic_of_readToken (readToken_of_start starts slash))

/-- A step ends the topic if it succeeds, and only passes characters if it fails. -/
theorem AtTopic.step (atTopic : parser.AtTopic run skipped rest)
    (stepped : parser.step = (outcome, after)) :
    after.PastTopic ∨ ∃ diagnostic passed later, outcome = some diagnostic ∧
      rest = passed ++ later ∧ after.AtTopic run (skipped ++ passed) later ∧
      ((diagnostic.fault = .invalidCharacter ∧ after = parser) ∨
        ∃ c, rest.head? = some c ∧
          ((diagnostic.fault = .invalidNumber ∧ isIntegerStart c = true) ∨
            (diagnostic.fault.InQuotes ∧ isQuote c = true ∧ passed.head? = some c))) := by
  have started := Text.byteLength_ne_zero atTopic.continues.started
  have read : parser.cursor.next =
      (⟨rest, byteLength ('/' :: run ++ skipped), 0⟩ : Cursor).readToken := by
    rw [atTopic.continues.cursor, Cursor.next, if_neg fun atStart => started atStart.1]
    rfl
  unfold Parser.step at stepped
  rw [read] at stepped
  cases outcomeRead : (⟨rest, byteLength ('/' :: run ++ skipped), 0⟩ : Cursor).readToken with
  | mk result cursor =>
      rw [outcomeRead] at stepped
      cases result with
      | ok token =>
          cases stepped
          exact .inl (pastTopic_of_readToken outcomeRead)
      | error diagnostic =>
          cases stepped
          right
          obtain ⟨isCharacter, rfl⟩ | ⟨c, text, passed, isText, skips, cause⟩ :=
            Cursor.readToken_error outcomeRead
          · refine ⟨diagnostic, [], rest, rfl, rfl, ?_, .inl ⟨isCharacter, ?_⟩⟩
            · rw [List.append_nil, ← atTopic.continues.cursor]
              exact atTopic
            · rw [← atTopic.continues.cursor]
          · refine ⟨diagnostic, passed, cursor.rest, rfl, skips.rest,
              ⟨atTopic.token, atTopic.allowed, ?_, ?_, ?_⟩, .inr ⟨c, ?_, cause⟩⟩
            · have text : rest = passed ++ cursor.rest := skips.rest
              rw [← List.append_assoc, List.append_assoc _ passed, ← text]
              exact atTopic.continues.source
            · simp
            · rw [← List.append_assoc, Text.byteLength_append, ← skips.offset]
              exact congrArg (Cursor.mk cursor.rest cursor.offset) skips.depth
            · rw [show rest = c :: text from isText]
              rfl

/-- As long as the topic is the current token, every step has failed. -/
theorem AtTopic.steps (atTopic : parser.AtTopic run skipped rest)
    (stepped : parser.steps count = (outcomes, after)) :
    after.PastTopic ∨ (none ∉ outcomes ∧ ∃ passed later, rest = passed ++ later ∧
      after.AtTopic run (skipped ++ passed) later) := by
  induction count generalizing parser skipped rest outcomes with
  | zero =>
      cases stepped
      refine .inr ⟨List.not_mem_nil, [], rest, rfl, ?_⟩
      rw [List.append_nil]
      exact atTopic
  | succ count ih =>
      obtain ⟨outcome, others, next, rfl, first, remaining⟩ := steps_succ stepped
      obtain past | ⟨diagnostic, passed, later, rfl, rfl, atNext, -⟩ := atTopic.step first
      · exact .inl (past.steps remaining)
      · obtain past | ⟨allFail, more, last, rfl, atLast⟩ := ih atNext remaining
        · exact .inl past
        · refine .inr ⟨?_, passed ++ more, last, ?_, ?_⟩
          · rw [List.mem_cons, not_or]
            exact ⟨nofun, allFail⟩
          · rw [List.append_assoc]
          · rw [← List.append_assoc]
            exact atLast

/-- The first step behind a topic fails at a quote, or changes nothing. -/
theorem AtTopic.first_step (atTopic : parser.AtTopic run [] rest)
    (stops : Stops isTopicChar rest) (stepped : parser.step = (outcome, after)) :
    after.PastTopic ∨ (after = parser ∧ outcome ≠ none) ∨
      ∃ diagnostic quote passed later, outcome = some diagnostic ∧ diagnostic.fault.InQuotes ∧
        isQuote quote = true ∧ rest = quote :: passed ++ later ∧
        after.AtTopic run (quote :: passed) later := by
  obtain past | ⟨diagnostic, passed, later, rfl, split, atAfter, cause⟩ := atTopic.step stepped
  · exact .inl past
  · obtain ⟨-, same⟩ | ⟨c, head, ⟨-, starts⟩ | ⟨inQuotes, isQuote, first⟩⟩ := cause
    · exact .inr (.inl ⟨same, nofun⟩)
    · -- A topic takes the digits and minus signs behind it.
      have outside := stops c head
      rw [isIntegerStart, Bool.or_eq_true, beq_iff_eq] at starts
      rcases starts with digit | rfl
      · simp [isTopicChar, isAsciiAlphanumeric, digit] at outside
      · cases outside
    · obtain ⟨others, rfl⟩ := List.head?_eq_some_iff.mp first
      exact .inr (.inr ⟨diagnostic, c, others, later, rfl, inQuotes, isQuote, split, atAfter⟩)

theorem AtTopic.path_sound (atTopic : parser.AtTopic run skipped rest) {path : Path}
    (succeeds : parser.path = .ok path) :
    Topic ('/' :: run) ∧
      Components (byteLength ('/' :: run ++ skipped)) rest path.components path.modifier ∧
      path = { path with source := String.ofList parser.source
                         topic := String.ofList ('/' :: run) } := by
  obtain ⟨⟨name, afterTopic⟩, topicRead, onward⟩ := bind_eq_ok_iff.mp succeeds
  obtain ⟨⟨components, modifier⟩, componentsRead, same⟩ := bind_eq_ok_iff.mp onward
  cases same
  have isTopic := congrArg Token.lexeme atTopic.token
  obtain ⟨isName, rfl, stands⟩ :=
    topic_sound_of_continues isTopic atTopic.allowed atTopic.continues topicRead
  exact ⟨isName, components_sound stands componentsRead, rfl⟩

/-- A parser that reads a path after some steps has failed in all of them, and first at a quote
behind the topic. -/
theorem AtTopic.first_fault (atTopic : parser.AtTopic run [] rest) (stops : Stops isTopicChar rest)
    (stepped : parser.steps (count + 1) = (outcomes, after)) {path : Path}
    (succeeds : after.path = .ok path) :
    ∃ diagnostic others quote passed later, outcomes = some diagnostic :: others ∧
      none ∉ others ∧ parser.step.1 = some diagnostic ∧ diagnostic.fault.InQuotes ∧
      isQuote quote = true ∧ rest = quote :: passed ++ later ∧
      after.AtTopic run (quote :: passed) later := by
  obtain ⟨outcome, others, next, rfl, first, remaining⟩ := steps_succ stepped
  obtain past | ⟨rfl, fails⟩ |
    ⟨diagnostic, quote, passed, later, rfl, inQuotes, quoted, rfl, atNext⟩ :=
    atTopic.first_step stops first
  · exact absurd succeeds ((past.steps remaining).path_ne_ok path)
  · have stuck := congrArg Prod.snd first
    obtain rfl := steps_of_stuck stuck remaining
    refine absurd succeeds (path_ne_ok_of_fault ?_ path)
    rw [first]
    exact fails
  · obtain past | ⟨allFail, more, last, rfl, atLast⟩ := atNext.steps remaining
    · exact absurd succeeds (past.path_ne_ok path)
    · refine ⟨diagnostic, others, quote, passed ++ more, last, rfl, allFail,
        congrArg Prod.fst first, inQuotes, quoted, ?_, atLast⟩
      rw [List.cons_append, List.cons_append, List.append_assoc]

end Parser

theorem parse?_of_open? {text : String} {parser : Parser} (opens : open? text = .ok parser) :
    parse? text = parser.path.toOption := by
  unfold parse? parse
  rw [opens]
  change (parser.path.mapError ReadError.rejected).toOption = parser.path.toOption
  cases parser.path with
  | error diagnostic => rfl
  | ok path => rfl

theorem start_of_open? {text : String} {parser : Parser} (opens : open? text = .ok parser) :
    Parser.start text.toList = .ok parser := by
  unfold open? at opens
  split at opens
  · cases opens
  · cases started : Parser.start text.toList with
    | error diagnostic =>
        rw [started] at opens
        cases opens
    | ok first =>
        rw [started] at opens
        cases opens
        rfl

/-- A path that is read after token steps is the path of the text, unless a step has failed inside
quotes. The text does not read then: it has a quote behind its topic, and the path is what the
grammar derives when the characters from the quote on, up to where the last fault has left the
cursor, are passed over. -/
theorem parse?_of_steps {text : String} {parser after : Parser} {count : Nat}
    {outcomes : List (Option Diagnostic)} {path : Path} (opens : open? text = .ok parser)
    (stepped : parser.steps count = (outcomes, after)) (reads : after.path = .ok path) :
    ((∀ diagnostic, some diagnostic ∈ outcomes → ¬diagnostic.fault.InQuotes) →
        parse? text = some path) ∧
      (count ≠ 0 →
        parse? text = none ∧ none ∉ outcomes ∧
          (∃ diagnostic, outcomes.head? = some (some diagnostic) ∧ diagnostic.fault.InQuotes) ∧
          ∃ topic quote passed rest, text.toList = topic ++ (quote :: passed ++ rest) ∧
            Topic topic ∧ isQuote quote = true ∧
            Components (byteLength (topic ++ quote :: passed)) rest path.components
              path.modifier ∧
            path = { path with source := text, topic := String.ofList topic }) := by
  have starts := start_of_open? opens
  cases count with
  | zero =>
      cases stepped
      refine ⟨fun _ => ?_, fun nonzero => absurd rfl nonzero⟩
      rw [parse?_of_open? opens, reads]
      rfl
  | succ count =>
      obtain ⟨run, rest, stops, atTopic⟩ | past := Parser.atTopic_or_pastTopic starts
      · obtain ⟨diagnostic, others, quote, passed, later, rfl, allFail, fails, inQuotes, quoted,
          rfl, atLast⟩ := atTopic.first_fault stops stepped reads
        obtain ⟨isTopic, derived, isPath⟩ := atLast.path_sound reads
        refine ⟨fun outside => absurd inQuotes (outside diagnostic List.mem_cons_self),
          fun _ => ⟨?_, ?_, ⟨diagnostic, rfl, inQuotes⟩, '/' :: run, quote, passed, later, ?_,
            isTopic, quoted, derived, ?_⟩⟩
        · rw [parse?_of_open? opens]
          cases result : parser.path with
          | error diagnostic => rfl
          | ok other =>
              refine absurd result (Parser.path_ne_ok_of_fault ?_ other)
              rw [fails]
              nofun
        · rw [List.mem_cons, not_or]
          exact ⟨nofun, allFail⟩
        · rw [← Parser.source_of_start starts, atTopic.continues.source, List.append_nil]
        · have source : after.source = text.toList := by
            rw [atLast.continues.source, ← Parser.source_of_start starts,
              atTopic.continues.source, List.append_nil, List.append_assoc]
          rw [source, String.ofList_toList] at isPath
          exact isPath
      · exact absurd reads ((past.steps stepped).path_ne_ok path)

theorem parse?_of_steps_bad_escape :
    ∃ parser after outcomes path, open? "/t\"\\.x" = .ok parser ∧
      parser.steps 1 = (outcomes, after) ∧ after.path = .ok path ∧ none ∉ outcomes := by
  refine ⟨_, _, _, _, rfl, rfl, rfl, ?_⟩
  exact ((@parse?_of_steps "/t\"\\.x" _ _ 1 _ _ rfl rfl rfl).2 Nat.one_ne_zero).2.1

/-- A failed step makes a malformed text give a path. -/
theorem parse?_ne_of_bad_escape :
    ∃ parser after outcomes path, open? "/t\"\\.x" = .ok parser ∧
      parser.steps 1 = (outcomes, after) ∧ after.path = .ok path ∧
      path.components = [.name "x"] ∧ parse? "/t\"\\.x" = none :=
  ⟨_, _, _, _, rfl, rfl, rfl, rfl, rfl⟩

end MessageQuery.Path
