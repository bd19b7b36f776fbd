import MessageQuery.Proofs.Path.Tokens

/-!
# Where diagnostics point

A parser has a token of the text in hand, and its cursor goes on with the tokens behind it. So a
reading that fails either meets the fault at which the tokens of the text end, or blames a token
that it has met. Both stand in the text, and only the end of the text stands behind its last
character.
-/

namespace MessageQuery.Path

open Cursor Grammar
open Text (byteLength)

/-- The diagnostic is the fault at which the tokens of the text end, or points at one of them. -/
def Diagnostic.Concerns (diagnostic : Diagnostic) (text : List Char) : Prop :=
  (tokens text).2 = some diagnostic ∨ ∃ token ∈ (tokens text).1, diagnostic.column = token.column

/-! ## Cursors in a text -/

namespace Cursor

variable {cursor after : Cursor} {token : Token} {toks : List Token} {fault? : Option Diagnostic}

/-- The end of the text is read again and again. -/
theorem next_of_ended (ended : cursor.rest = []) :
    cursor.next = (.ok ⟨.endOfText, cursor.offset⟩, cursor) := by
  obtain ⟨_, offset, depth⟩ := cursor
  cases ended
  have stays : (⟨[], offset, depth⟩ : Cursor).skipBlanks = ⟨[], offset, depth⟩ := by
    unfold skipBlanks
    split <;> rfl
  rw [next, if_neg (by simp), stays]
  rfl

/-- A step keeps to the tokens from the cursor on. -/
theorem Lexes.of_next (lexes : Lexes cursor toks fault?)
    (read : cursor.next = (.ok token, after)) :
    token ∈ toks ∧ ∃ later, Lexes after later fault? ∧ ∀ other ∈ later, other ∈ toks := by
  cases lexes with
  | fault fails => cases read.symm.trans fails
  | ending again isEnd =>
      cases read.symm.trans again
      obtain ⟨gap, word, yields⟩ := exists_yields read
      obtain ⟨rfl, ended⟩ := List.append_eq_nil_iff.mp (yields.ended isEnd)
      have same : token = ⟨.endOfText, after.offset⟩ := by
        rw [yields.offset, ← isEnd, show token = ⟨token.lexeme, token.start⟩ from rfl,
          yields.start, isEnd]
        rfl
      refine ⟨List.mem_singleton_self _, [token], ?_, fun _ member => member⟩
      rw [same]
      exact .ending (next_of_ended ended) rfl
  | token again isToken rest =>
      cases read.symm.trans again
      exact ⟨List.mem_cons_self, _, rest, fun _ member => List.mem_cons_of_mem _ member⟩

theorem Lexes.fault_of_next {diagnostic : Diagnostic} (lexes : Lexes cursor toks fault?)
    (fails : cursor.next = (.error diagnostic, after)) : fault? = some diagnostic := by
  cases lexes with
  | fault again =>
      cases fails.symm.trans again
      rfl
  | ending read isEnd => cases fails.symm.trans read
  | token read isToken rest => cases fails.symm.trans read

/-- Only the end of the text starts where the text ends. -/
theorem Lexes.start_lt_finish (lexes : Lexes cursor toks fault?) :
    ∀ token ∈ toks, token.lexeme ≠ .endOfText → token.start < cursor.finish := by
  induction lexes with
  | fault read => exact nofun
  | ending read isEnd =>
      intro token member isToken
      cases List.mem_singleton.mp member
      exact absurd isEnd isToken
  | @token cursor after _ _ _ read isToken rest ih =>
      intro other member notEnd
      have finish := finish_next cursor
      rw [read] at finish
      obtain ⟨_, _, yields⟩ := exists_yields read
      rw [← finish]
      rcases List.mem_cons.mp member with rfl | later
      · exact Nat.lt_of_lt_of_le (yields.start_lt_offset isToken) (Nat.le_add_right _ _)
      · exact ih other later notEnd

end Cursor

/-! ## Parsers in a text -/

namespace Parser

/-- The parser has a token of the text in hand, and goes on with tokens of the text. -/
structure Within (parser : Parser) (text : List Char) : Prop where
  token : parser.token ∈ (tokens text).1
  onward : ∃ later, parser.cursor.Lexes later (tokens text).2 ∧
    ∀ token ∈ later, token ∈ (tokens text).1

/-- A reading that fails gives a diagnostic that concerns the text. -/
def Keeps {α : Type} (text : List Char) (holds : α → Prop) (outcome : Except Diagnostic α) : Prop :=
  match outcome with
  | .error diagnostic => diagnostic.Concerns text
  | .ok value => holds value

variable {parser after : Parser} {text : List Char} {α β : Type}

theorem Keeps.bind {holds : α → Prop} {holdsLast : β → Prop} {first : Except Diagnostic α}
    {next : α → Except Diagnostic β} (keeps : Keeps text holds first)
    (onward : ∀ value, holds value → Keeps text holdsLast (next value)) :
    Keeps text holdsLast (first >>= next) := by
  cases first with
  | error diagnostic => exact keeps
  | ok value => exact onward value keeps

theorem Within.reject (within : parser.Within text) (holds : α → Prop) (cause : Fault) :
    Keeps text holds (parser.reject cause) :=
  .inr ⟨parser.token, within.token, rfl⟩

theorem Within.step (within : parser.Within text) :
    (parser.step.1 = none → parser.step.2.Within text) ∧
      ∀ diagnostic, parser.step.1 = some diagnostic → diagnostic.Concerns text := by
  obtain ⟨later, lexes, known⟩ := within.onward
  unfold Parser.step
  rcases read : parser.cursor.next with ⟨diagnostic | token, cursor⟩
  · refine ⟨nofun, ?_⟩
    rintro _ ⟨⟩
    exact .inl (lexes.fault_of_next read)
  · obtain ⟨member, others, onward, fewer⟩ := lexes.of_next read
    exact ⟨fun _ => ⟨known token member, others, onward,
      fun other isOther => known other (fewer other isOther)⟩, nofun⟩

theorem Within.next (within : parser.Within text) :
    Keeps text (fun after => after.Within text) parser.next := by
  have stepped := within.step
  unfold Parser.next
  split
  · next after isStep =>
      rw [isStep] at stepped
      exact stepped.1 rfl
  · next diagnostic after isStep =>
      rw [isStep] at stepped
      exact stepped.2 diagnostic rfl

/-- What every reading of a phrase keeps: the parser behind the phrase is in the text. -/
abbrev KeepsWithin (text : List Char) (outcome : Except Diagnostic (α × Parser)) : Prop :=
  Keeps text (fun result => result.2.Within text) outcome

namespace Within

theorem expect (within : parser.Within text) (symbol : Symbol) (cause : Fault) :
    Keeps text (fun after => after.Within text) (parser.expect symbol cause) := by
  unfold Parser.expect
  split
  · exact within.next
  · exact within.reject _ cause

theorem identifier (within : parser.Within text) : KeepsWithin text parser.identifier := by
  unfold Parser.identifier
  split
  · exact within.next.bind fun _ inside => inside
  · exact within.reject _ _

theorem topic (within : parser.Within text) : KeepsWithin text parser.topic := by
  unfold Parser.topic
  split
  · split
    · exact within.next.bind fun _ inside => inside
    · exact within.reject _ _
  · exact within.reject _ _

theorem reference (within : parser.Within text) : KeepsWithin text parser.reference :=
  within.next.bind fun _ atName => atName.identifier.bind fun _ inside => inside

theorem bound (within : parser.Within text) : KeepsWithin text parser.bound := by
  unfold Parser.bound
  split
  · exact within.next.bind fun _ inside => inside
  · exact within.reference.bind fun _ inside => inside
  · exact within

theorem indexOrSlice (within : parser.Within text) : KeepsWithin text parser.indexOrSlice := by
  refine within.next.bind fun _ atFirst => atFirst.bound.bind fun (first, afterFirst) behind => ?_
  dsimp only at behind ⊢
  split
  · exact behind.next.bind fun _ atSecond => atSecond.bound.bind fun _ afterSecond =>
      (afterSecond.expect _ _).bind fun _ inside => inside
  · split
    · exact (behind.expect _ _).bind fun _ inside => inside
    · exact within.reject _ _

theorem filterValue (within : parser.Within text) : KeepsWithin text parser.filterValue := by
  unfold Parser.filterValue
  split
  · exact within.next.bind fun _ inside => inside
  · exact within.next.bind fun _ inside => inside
  · exact within.reference
  · exact within.reject _ _

theorem moreNames (within : parser.Within text) (fuel : Nat) :
    KeepsWithin text (parser.moreNames fuel) := by
  induction fuel generalizing parser with
  | zero => exact within
  | succ fuel ih =>
      unfold Parser.moreNames
      split
      · exact within.next.bind fun _ atName => atName.identifier.bind fun _ behind =>
          (ih behind).bind fun _ inside => inside
      · exact within

theorem filter (within : parser.Within text) : KeepsWithin text parser.filter :=
  within.next.bind fun _ inside => inside.identifier.bind fun _ behindName =>
    (behindName.moreNames _).bind fun _ behindNames =>
      (behindNames.expect _ _).bind fun _ atValue => atValue.filterValue.bind fun _ atClose =>
        (atClose.expect _ _).bind fun _ behind => behind

theorem modifier (within : parser.Within text) : Keeps text (fun _ => True) parser.modifier := by
  refine within.next.bind fun _ atName => atName.identifier.bind fun (name, after) behind => ?_
  dsimp only at behind ⊢
  split
  · split
    · trivial
    · exact behind.reject _ _
  · exact atName.reject _ _

theorem components (within : parser.Within text) (fuel : Nat) :
    Keeps text (fun _ => True) (parser.components fuel) := by
  induction fuel generalizing parser with
  | zero => exact within.reject _ _
  | succ fuel ih =>
      unfold Parser.components
      split
      · trivial
      · refine within.next.bind fun _ atName => ?_
        split
        · exact atName.modifier.bind fun _ _ => trivial
        · exact atName.identifier.bind fun _ behind => (ih behind).bind fun _ _ => trivial
      · exact within.indexOrSlice.bind fun _ behind => (ih behind).bind fun _ _ => trivial
      · exact within.filter.bind fun _ behind => (ih behind).bind fun _ _ => trivial
      · exact within.reject _ _

theorem path (within : parser.Within text) : Keeps text (fun _ => True) parser.path :=
  within.topic.bind fun _ behind => (behind.components _).bind fun _ _ => trivial

/-- Steps that succeed stay in the text. -/
theorem steps (within : parser.Within text) {count : Nat} {outcomes : List (Option Diagnostic)}
    (stepped : parser.steps count = (outcomes, after))
    (succeed : ∀ outcome ∈ outcomes, outcome = none) : after.Within text := by
  induction count generalizing parser outcomes with
  | zero =>
      cases stepped
      exact within
  | succ count ih =>
      obtain ⟨outcome, later, next, rfl, first, rest⟩ := steps_succ stepped
      have atNext := within.step.1
      rw [first] at atNext
      exact ih (atNext (succeed outcome List.mem_cons_self)) rest
        fun other member => succeed other (List.mem_cons_of_mem _ member)

end Within

theorem within_of_start (starts : start text = .ok parser) : parser.Within text := by
  obtain ⟨-, read⟩ := next_of_start starts
  obtain ⟨member, onward⟩ := (lexes_tokens (Nat.lt_succ_self _)).of_next read
  exact ⟨member, onward⟩

theorem concerns_of_start {diagnostic : Diagnostic} (fails : start text = .error diagnostic) :
    diagnostic.Concerns text := by
  unfold start at fails
  split at fails
  · cases fails
  · next read =>
      cases fails
      exact .inl ((lexes_tokens (Nat.lt_succ_self _)).fault_of_next read)

end Parser

/-! ## Whole texts -/

/-- The diagnostic stands in front of a character or at the end, and at the end only if all tokens
have been read and it blames the last one, which is the end of the text. -/
structure Diagnostic.PointsInto (diagnostic : Diagnostic) (text : String) : Prop where
  concerns : diagnostic.Concerns text.toList
  range : 1 ≤ diagnostic.column ∧ diagnostic.column ≤ text.utf8ByteSize + 1
  boundary : ∃ left right, text.toList = left ++ right ∧ diagnostic.column = byteLength left + 1
  ending : diagnostic.column = text.utf8ByteSize + 1 → (tokens text.toList).2 = none ∧
    ∃ token ∈ (tokens text.toList).1, token.lexeme = .endOfText ∧
      diagnostic.column = token.column
  word : FitsWord (diagnostic.column - 1)

theorem Diagnostic.Concerns.pointsInto {text : String} {diagnostic : Diagnostic}
    (fits : text.utf8ByteSize ≤ maxByteLength) (concerns : diagnostic.Concerns text.toList) :
    diagnostic.PointsInto text := by
  have lexes : (ofText text.toList).Lexes (tokens text.toList).1 (tokens text.toList).2 :=
    lexes_tokens (Nat.lt_succ_self _)
  have finish : (ofText text.toList).finish = byteLength text.toList := Nat.zero_add _
  have size := Text.utf8ByteSize_eq text
  have boundary : ∃ left right, text.toList = left ++ right ∧
      diagnostic.column = byteLength left + 1 := by
    rcases concerns with isFault | ⟨token, member, column⟩
    · obtain ⟨_, left, c, right, isText, column⟩ := lexes.lexed.faulty diagnostic isFault
      exact ⟨left, c :: right, isText, column⟩
    · obtain ⟨_, left, right, isText, start⟩ := lexes.lexed.spans token member
      exact ⟨left, _, isText, by rw [column, Token.column, start]⟩
  obtain ⟨left, right, isText, column⟩ := boundary
  have within : byteLength left ≤ byteLength text.toList := by
    rw [isText, Text.byteLength_append]
    exact Nat.le_add_right _ _
  refine ⟨concerns, by omega, ⟨left, right, isText, column⟩, fun atEnd => ?_,
    fitsWord_of_le fits (by omega)⟩
  rcases concerns with isFault | ⟨token, member, isColumn⟩
  · obtain ⟨_, front, c, back, same, faultColumn⟩ := lexes.lexed.faulty diagnostic isFault
    have later : byteLength front < byteLength text.toList := by
      have positive := Text.byteLength_ne_zero (List.cons_ne_nil c back)
      rw [same, Text.byteLength_append]
      omega
    omega
  · have isEnd : token.lexeme = .endOfText := by
      apply Decidable.byContradiction
      intro isToken
      have early := lexes.start_lt_finish token member isToken
      rw [Token.column] at isColumn
      omega
    refine ⟨?_, token, member, isEnd, isColumn⟩
    cases isFault : (tokens text.toList).2 with
    | none => rfl
    | some fault => exact absurd isEnd ((lexes.lexed.faulty fault isFault).1 token member)

theorem rejected_of_open? {text : String} (fits : text.utf8ByteSize ≤ maxByteLength)
    {error : ReadError} (fails : open? text = .error error) :
    ∃ diagnostic, error = .rejected diagnostic ∧ diagnostic.Concerns text.toList := by
  unfold open? at fails
  rw [if_neg (Nat.not_lt.mpr fits)] at fails
  cases started : Parser.start text.toList with
  | error diagnostic =>
      rw [started] at fails
      cases fails
      exact ⟨diagnostic, rfl, Parser.concerns_of_start started⟩
  | ok parser =>
      rw [started] at fails
      cases fails

theorem rejected_of_parse {text : String} (fits : text.utf8ByteSize ≤ maxByteLength)
    {error : ReadError} (fails : parse text = .error error) :
    ∃ diagnostic, error = .rejected diagnostic ∧ diagnostic.Concerns text.toList := by
  unfold parse at fails
  cases opened : open? text with
  | error other =>
      rw [opened] at fails
      cases fails
      exact rejected_of_open? fits opened
  | ok parser =>
      have keeps := (Parser.within_of_start (start_of_open? opened)).path
      rw [opened] at fails
      change parser.path.mapError .rejected = .error error at fails
      cases read : parser.path with
      | error diagnostic =>
          rw [read] at fails keeps
          cases fails
          exact ⟨diagnostic, rfl, keeps⟩
      | ok path =>
          rw [read] at fails
          cases fails

/-- A text that is refused gets a diagnostic that points into it, and so does every fault that a
parser meets behind steps that succeed. -/
theorem diagnostics_point_into_text {text : String} (fits : text.utf8ByteSize ≤ maxByteLength) :
    (∀ error, parse text = .error error → ∃ diagnostic, error = .rejected diagnostic ∧
      error.render text = annotate text diagnostic.column "error" diagnostic.fault.message ∧
      diagnostic.PointsInto text) ∧
    ∀ parser count outcomes after, open? text = .ok parser →
      parser.steps count = (outcomes, after) → (∀ outcome ∈ outcomes, outcome = none) →
      ∀ diagnostic, after.step.1 = some diagnostic ∨ after.path = .error diagnostic →
        diagnostic.render text =
          annotate text diagnostic.column "error" diagnostic.fault.message ∧
        diagnostic.PointsInto text := by
  constructor
  · intro error fails
    obtain ⟨diagnostic, rfl, concerns⟩ := rejected_of_parse fits fails
    exact ⟨diagnostic, rfl, rfl, concerns.pointsInto fits⟩
  · intro parser count outcomes after opened stepped succeed diagnostic fails
    have within := (Parser.within_of_start (start_of_open? opened)).steps stepped succeed
    refine ⟨rfl, Diagnostic.Concerns.pointsInto fits ?_⟩
    rcases fails with stepFails | pathFails
    · exact within.step.2 diagnostic stepFails
    · have keeps := within.path
      rw [pathFails] at keeps
      exact keeps

/-- The path ends inside its bracket, behind a character of two bytes. -/
theorem diagnostics_point_into_text_open :
    "/t\x7ba=='é'".utf8ByteSize ≤ maxByteLength ∧
      ∃ diagnostic, parse "/t\x7ba=='é'" = .error (.rejected diagnostic) ∧
        diagnostic.column = 11 ∧ diagnostic.PointsInto "/t\x7ba=='é'" := by
  have fits : "/t\x7ba=='é'".utf8ByteSize ≤ maxByteLength := by decide
  obtain ⟨diagnostic, same, _, points⟩ :=
    (diagnostics_point_into_text fits).1 (.rejected ⟨11, .unclosedFilter⟩) rfl
  cases same
  exact ⟨fits, _, rfl, rfl, points⟩

end MessageQuery.Path
