import MessageQuery.Proofs.Path.Lexing

/-!
# Where a parser stands

A parser stands at a text if its current token is the first word of that text, and faces a text
if it stands behind the blanks in front of it. What has been read before is kept as a list of
characters, so its size is the position of the token. `Continues` is what a token step reads from:
the text behind the current token.
-/

namespace MessageQuery.Path

open Cursor Grammar
open Text (byteLength)

theorem bind_eq_ok_iff {ε α β : Type} {first : Except ε α} {next : α → Except ε β} {result : β} :
    (first >>= next) = .ok result ↔ ∃ value, first = .ok value ∧ next value = .ok result := by
  cases first with
  | error cause => simp [bind, Except.bind]
  | ok value => simp [bind, Except.bind]

theorem byteLength_append_symbol (before : List Char) (symbol : Symbol) :
    byteLength (before ++ symbol.text) = byteLength before + symbol.text.length := by
  rw [Text.byteLength_append]
  cases symbol <;> rfl

/-- The position of the second bound of a slice, counted by words and counted in the phrase. -/
theorem position_of_stop (before blanks word middle between : List Char) :
    byteLength (before ++ Symbol.openBracket.text ++ (blanks ++ (word ++ middle)) ++
        Symbol.colon.text) + byteLength between =
      byteLength before + 1 + byteLength (blanks ++ (word ++ (middle ++ ':' :: between))) := by
  have size : '['.utf8Size = 1 := rfl
  simp only [Text.byteLength_append, Symbol.text, byteLength, size]
  omega

/-- The position of the value of a filter, counted by words and counted in the phrase. -/
theorem position_of_value (before blanks fields middle between : List Char) :
    byteLength (before ++ Symbol.openBrace.text ++ blanks ++ fields ++ middle ++
        Symbol.equals.text ++ between) =
      byteLength before + 1 +
        byteLength (blanks ++ (fields ++ (middle ++ '=' :: '=' :: between))) := by
  have size : '{'.utf8Size = 1 := rfl
  simp only [Text.byteLength_append, Symbol.text, byteLength, size]
  omega

namespace Parser

structure Stands (parser : Parser) (before rest : List Char) (depth : Nat) : Prop where
  source : parser.source = before ++ rest
  started : before ≠ []
  reads : (⟨rest, byteLength before, depth⟩ : Cursor).readToken = (.ok parser.token, parser.cursor)

def Faces (parser : Parser) (before rest : List Char) (depth : Nat) : Prop :=
  ∃ blanks tail, rest = blanks ++ tail ∧ Blanks blanks ∧ (depth = 0 → blanks = []) ∧
    parser.Stands (before ++ blanks) tail depth

structure Continues (parser : Parser) (before rest : List Char) (depth : Nat) : Prop where
  source : parser.source = before ++ rest
  started : before ≠ []
  cursor : parser.cursor = ⟨rest, byteLength before, depth⟩

variable {parser after : Parser} {before rest word tail blanks : List Char} {depth : Nat}
  {lexeme : Lexeme}

theorem Continues.next_eq_ok_iff (continues : parser.Continues before rest depth) :
    parser.next = .ok after ↔ after.Faces before rest depth := by
  have started := Text.byteLength_ne_zero continues.started
  constructor
  · intro succeeds
    unfold next step at succeeds
    rw [continues.cursor] at succeeds
    cases read : (⟨rest, byteLength before, depth⟩ : Cursor).next with
    | mk outcome cursor =>
        rw [read] at succeeds
        cases outcome with
        | error diagnostic => cases succeeds
        | ok token =>
            cases succeeds
            obtain ⟨blanks, tail, rfl, isBlanks, allowed, reads⟩ :=
              (Grammar.next_eq_ok_iff started).mp read
            refine ⟨blanks, tail, rfl, isBlanks, allowed, ?_, ?_, ?_⟩
            · rw [List.append_assoc]
              exact continues.source
            · exact List.append_ne_nil_of_left_ne_nil continues.started _
            · rw [Text.byteLength_append]
              exact reads
  · rintro ⟨blanks, tail, rfl, isBlanks, allowed, stands⟩
    have reads := stands.reads
    rw [Text.byteLength_append] at reads
    have read := (Grammar.next_eq_ok_iff started).mpr
      ⟨blanks, tail, rfl, isBlanks, allowed, reads⟩
    have source : parser.source = after.source := by
      rw [continues.source, stands.source, List.append_assoc]
    unfold next step
    rw [continues.cursor, read]
    simp only [source]

/-- The word at which a parser stands decides its token. -/
theorem Stands.token_eq (stands : parser.Stands before (word ++ tail) depth)
    (reads : Reads word tail lexeme) :
    parser.token = ⟨lexeme, byteLength before + lexeme.lead⟩ ∧
      parser.Continues (before ++ word) tail (lexeme.depthPast depth) := by
  have step := stands.reads
  rw [readToken_of_reads reads, Prod.mk.injEq, Except.ok.injEq] at step
  obtain ⟨token, cursor⟩ := step
  refine ⟨token.symm, ?_, ?_, ?_⟩
  · rw [List.append_assoc]
    exact stands.source
  · exact List.append_ne_nil_of_left_ne_nil stands.started _
  · rw [← cursor, Text.byteLength_append]

theorem Stands.at_symbol {symbol : Symbol}
    (stands : parser.Stands before (symbol.text ++ tail) depth) :
    parser.token = ⟨.symbol symbol, byteLength before⟩ ∧
      parser.Continues (before ++ symbol.text) tail (depthAfter depth symbol) :=
  stands.token_eq (.symbol symbol tail)

theorem Stands.exists_word (stands : parser.Stands before rest depth) :
    ∃ word tail, rest = word ++ tail ∧ Reads word tail parser.token.lexeme ∧
      parser.token.start = byteLength before + parser.token.lexeme.lead ∧
      parser.Continues (before ++ word) tail (parser.token.lexeme.depthPast depth) := by
  obtain ⟨word, tail, rfl, reads⟩ := reads_of_readToken stands.reads
  obtain ⟨token, continues⟩ := stands.token_eq reads
  exact ⟨word, tail, rfl, reads, congrArg Token.start token, continues⟩

theorem Stands.exists_symbol {symbol : Symbol} (stands : parser.Stands before rest depth)
    (isSymbol : parser.token.lexeme = .symbol symbol) :
    ∃ tail, rest = symbol.text ++ tail ∧ parser.token.start = byteLength before ∧
      parser.Continues (before ++ symbol.text) tail (depthAfter depth symbol) := by
  obtain ⟨word, tail, rfl, reads, start, continues⟩ := stands.exists_word
  rw [isSymbol] at reads start continues
  cases reads
  exact ⟨tail, rfl, start, continues⟩

theorem Stands.faces (stands : parser.Stands before rest depth) :
    parser.Faces before rest depth := by
  refine ⟨[], rest, rfl, by simp [Blanks], fun _ => rfl, ?_⟩
  rw [List.append_nil]
  exact stands

/-- Outside brackets and braces there is nothing between what a parser faces and its token. -/
theorem Faces.stands_of_zero (faces : parser.Faces before rest 0) :
    parser.Stands before rest 0 := by
  obtain ⟨blanks, tail, rfl, _, allowed, stands⟩ := faces
  rw [allowed rfl, List.append_nil] at stands
  rw [allowed rfl]
  exact stands

/-- The blanks in front of a word are those that are passed over. -/
theorem Faces.stands (faces : parser.Faces before (blanks ++ rest) depth)
    (isBlanks : Blanks blanks) (starts : Starts rest) :
    parser.Stands (before ++ blanks) rest depth := by
  obtain ⟨passed, left, split, arePassed, _, stands⟩ := faces
  obtain ⟨word, tail, rfl, reads, _⟩ := stands.exists_word
  have first := takeWhile_of_stops (blanks_iff.mp isBlanks) starts.stops_isInlineBlank
  have second := takeWhile_of_stops (blanks_iff.mp arePassed) reads.stops_isInlineBlank
  have same : blanks = passed := by
    rw [← first, ← second, split]
  subst same
  rw [List.append_cancel_left split]
  exact stands

/-- The text between two braces is found again by the positions of their tokens. -/
theorem slice_of_stands {body : List Char}
    (opens : parser.Stands before (Symbol.openBrace.text ++ (body ++ rest)) depth)
    {atClose : Parser} {inner : Nat} {symbol : Symbol}
    (closes : atClose.Stands (before ++ Symbol.openBrace.text ++ body) (symbol.text ++ tail)
      inner) :
    Text.slice parser.token.stop atClose.token.start parser.source = body := by
  have stop : parser.token.stop = byteLength (before ++ Symbol.openBrace.text) := by
    rw [Token.stop, Token.text, opens.at_symbol.1, Text.byteLength_append]
    rfl
  have start : atClose.token.start =
      byteLength (before ++ Symbol.openBrace.text) + byteLength body := by
    rw [closes.at_symbol.1, Text.byteLength_append]
  rw [stop, start, opens.source, ← List.append_assoc, Text.slice_middle]

/-- A filter keeps what is written between its braces. -/
theorem written_of_stands {fields middle between word behind : List Char} {atClose : Parser}
    {inner : Nat}
    (opens : parser.Stands before (Symbol.openBrace.text ++ (blanks ++ (fields ++ (middle ++
      (Symbol.equals.text ++ (between ++ (word ++ (behind ++ rest)))))))) depth)
    {symbol : Symbol}
    (closes : atClose.Stands (before ++ Symbol.openBrace.text ++ blanks ++ fields ++ middle ++
      Symbol.equals.text ++ between ++ word ++ behind) (symbol.text ++ tail) inner) :
    Text.slice parser.token.stop atClose.token.start parser.source =
      blanks ++ (fields ++ (middle ++ '=' :: '=' :: (between ++ (word ++ behind)))) := by
  have opened : parser.Stands before (Symbol.openBrace.text ++ (blanks ++ (fields ++ (middle ++
      '=' :: '=' :: (between ++ (word ++ behind)))) ++ rest)) depth := by
    simpa [Symbol.text] using opens
  have closed : atClose.Stands (before ++ Symbol.openBrace.text ++ (blanks ++ (fields ++ (middle ++
      '=' :: '=' :: (between ++ (word ++ behind)))))) (symbol.text ++ tail) inner := by
    simpa [Symbol.text] using closes
  exact slice_of_stands opened closed

/-! ## Texts at which a step succeeds -/

/-- A token can be read, after blanks where they are allowed. -/
def Begins (rest : List Char) (depth : Nat) : Prop :=
  ∃ blanks tail, rest = blanks ++ tail ∧ Blanks blanks ∧ (depth = 0 → blanks = []) ∧ Starts tail

theorem begins_of_starts (starts : Starts rest) (depth : Nat) : Begins rest depth :=
  ⟨[], rest, rfl, by simp [Blanks], fun _ => rfl, starts⟩

theorem begins_after_blanks (starts : Starts rest) (isBlanks : Blanks blanks)
    (inside : depth ≠ 0) : Begins (blanks ++ rest) depth :=
  ⟨blanks, rest, rfl, isBlanks, fun zero => absurd zero inside, starts⟩

theorem Continues.exists_next (continues : parser.Continues before rest depth)
    (begins : Begins rest depth) :
    ∃ after, parser.next = .ok after ∧ after.Faces before rest depth := by
  obtain ⟨blanks, _, rfl, isBlanks, allowed, word, tail, lexeme, rfl, reads⟩ := begins
  have step := readToken_of_reads reads (byteLength (before ++ blanks)) depth
  have faces : Faces ⟨parser.source, ⟨lexeme, byteLength (before ++ blanks) + lexeme.lead⟩,
      ⟨tail, byteLength (before ++ blanks) + byteLength word, lexeme.depthPast depth⟩⟩
      before (blanks ++ (word ++ tail)) depth := by
    refine ⟨blanks, word ++ tail, rfl, isBlanks, allowed, ?_, ?_, step⟩
    · rw [List.append_assoc]
      exact continues.source
    · exact List.append_ne_nil_of_left_ne_nil continues.started _
  exact ⟨_, continues.next_eq_ok_iff.mpr faces, faces⟩

/-! ## The start of a text -/

theorem next_of_start {source : List Char} (starts : start source = .ok parser) :
    parser.source = source ∧
      (Cursor.ofText source).next = (.ok parser.token, parser.cursor) := by
  unfold start at starts
  split at starts
  · next token cursor read =>
      cases starts
      exact ⟨rfl, read⟩
  · cases starts

theorem source_of_start {source : List Char} (starts : start source = .ok parser) :
    parser.source = source :=
  (next_of_start starts).1

/-- Without a slash the first token is read like any other. -/
theorem readToken_of_start {source : List Char} (starts : start source = .ok parser)
    (noSlash : source.head? ≠ some '/') :
    (⟨source, 0, 0⟩ : Cursor).readToken = (.ok parser.token, parser.cursor) := by
  have read := (next_of_start starts).2
  rw [Cursor.next, if_neg fun atStart => noSlash atStart.2] at read
  exact read

/-- A slash at the start begins the topic, which takes as many characters as it can. -/
theorem start_eq {run : List Char} (inside : ∀ c ∈ run, isTopicChar c = true)
    (stops : Stops isTopicChar tail) :
    start ('/' :: (run ++ tail)) =
      .ok ⟨'/' :: (run ++ tail), ⟨.topic ('/' :: run), 0⟩, ⟨tail, byteLength ('/' :: run), 0⟩⟩ := by
  have taken := take_eq ('/' :: run) tail 0 0 .topic
  rw [Nat.zero_add] at taken
  have step : (Cursor.ofText ('/' :: (run ++ tail))).next =
      (.ok ⟨.topic ('/' :: run), 0⟩, ⟨tail, byteLength ('/' :: run), 0⟩) := by
    unfold Cursor.next readTopic ofText
    simp only [List.drop_succ_cons, List.drop_zero, takeWhile_of_stops inside stops]
    exact taken
  unfold start
  rw [step]

/-- A text that does not start with a slash has no topic. -/
theorem lexeme_ne_topic {source : List Char} (starts : start source = .ok parser)
    (noSlash : source.head? ≠ some '/') (name : List Char) : parser.token.lexeme ≠ .topic name := by
  intro isTopic
  obtain ⟨word, tail, -, reads⟩ := reads_of_readToken (readToken_of_start starts noSlash)
  rw [isTopic] at reads
  cases reads

end Parser

end MessageQuery.Path
