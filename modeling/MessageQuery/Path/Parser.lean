import MessageQuery.Path.Basic
import MessageQuery.Path.Cursor

/-!
# Reading paths

A parser holds the current token of a path text and the cursor after it. Every reading function
takes a parser at the first token of its phrase and gives what it read with the parser at the
token after the phrase.
-/

namespace MessageQuery.Path

structure Parser where
  source : List Char
  token : Token
  cursor : Cursor

namespace Parser

/-- The parser at the first token. -/
def start (source : List Char) : Except Diagnostic Parser :=
  match (Cursor.ofText source).next with
  | (.ok token, cursor) => .ok ⟨source, token, cursor⟩
  | (.error diagnostic, _) => .error diagnostic

/-- Moves to the next token. A fault keeps the current token and leaves the cursor where the
fault left it. -/
def step (parser : Parser) : Option Diagnostic × Parser :=
  match parser.cursor.next with
  | (.ok token, cursor) => (none, { parser with token, cursor })
  | (.error diagnostic, cursor) => (some diagnostic, { parser with cursor })

def next (parser : Parser) : Except Diagnostic Parser :=
  match parser.step with
  | (none, after) => .ok after
  | (some diagnostic, _) => .error diagnostic

/-- A fault at the current token. -/
def reject {α : Type} (parser : Parser) (cause : Fault) : Except Diagnostic α :=
  .error ⟨parser.token.column, cause⟩

def expect (parser : Parser) (symbol : Symbol) (cause : Fault) : Except Diagnostic Parser :=
  if parser.token.lexeme = .symbol symbol then parser.next else parser.reject cause

def identifier (parser : Parser) : Except Diagnostic (String × Parser) :=
  match parser.token.lexeme with
  | .identifier name => do return (String.ofList name, ← parser.next)
  | _ => parser.reject .expectedIdentifier

def topic (parser : Parser) : Except Diagnostic (String × Parser) :=
  match parser.token.lexeme with
  | .topic name =>
      if 1 < Text.byteLength name then do return (String.ofList name, ← parser.next)
      else parser.reject .emptyTopic
  | _ => parser.reject .missingTopic

/-- Drops the backslashes that escape the character after them. -/
def unescape : List Char → List Char
  | '\\' :: c :: rest => c :: unescape rest
  | ['\\'] => []
  | c :: rest => c :: unescape rest
  | [] => []

def integer (digits : List Char) : Value :=
  .ofInt ((Text.intOfDigits? digits).getD 0)

/-- The current token is the dollar sign. -/
def reference (parser : Parser) : Except Diagnostic (Operand × Parser) := do
  let (name, after) ← (← parser.next).identifier
  return (.reference name parser.token.start, after)

/-- A bound of a slice may be left out. -/
def bound (parser : Parser) : Except Diagnostic (Option Operand × Parser) :=
  match parser.token.lexeme with
  | .integer digits => do return (some (.literal (integer digits)), ← parser.next)
  | .symbol .dollar => do
      let (operand, after) ← parser.reference
      return (some operand, after)
  | _ => .ok (none, parser)

/-- The current token is the opening bracket, where a missing index is reported. -/
def indexOrSlice (parser : Parser) : Except Diagnostic (Component × Parser) := do
  let (first, afterFirst) ← (← parser.next).bound
  if afterFirst.token.lexeme = .symbol .colon then
    let (second, afterSecond) ← (← afterFirst.next).bound
    return (.slice first second, ← afterSecond.expect .closeBracket .unclosedIndex)
  else
    match first with
    | some operand =>
        return (.index operand, ← afterFirst.expect .closeBracket .unclosedIndex)
    | none => parser.reject .expectedBound

def filterValue (parser : Parser) : Except Diagnostic (Operand × Parser) :=
  match parser.token.lexeme with
  | .integer digits => do return (.literal (integer digits), ← parser.next)
  | .quoted raw => do
      return (.literal (.string (String.ofList (unescape raw))), ← parser.next)
  | .symbol .dollar => parser.reference
  | _ => parser.reject .expectedOperand

/-- The names after dots, up to a token that is no dot. -/
def moreNames : Nat → Parser → Except Diagnostic (List String × Parser)
  | 0, parser => .ok ([], parser)
  | fuel + 1, parser =>
      if parser.token.lexeme = .symbol .dot then do
        let (name, afterName) ← (← parser.next).identifier
        let (names, after) ← moreNames fuel afterName
        return (name :: names, after)
      else .ok ([], parser)

/-- The current token is the opening brace. -/
def filter (parser : Parser) : Except Diagnostic (Component × Parser) := do
  let inside ← parser.next
  let (name, afterName) ← inside.identifier
  let (names, afterNames) ← moreNames (parser.source.length + 1) afterName
  let atValue ← afterNames.expect .equals .expectedEquals
  let (value, atClose) ← atValue.filterValue
  let after ← atClose.expect .closeBrace .unclosedFilter
  let written := Text.slice parser.token.stop atClose.token.start parser.source
  return (.filter
    { path := name :: names, value, written := String.ofList written
      namePosition := inside.token.start, valuePosition := atValue.token.start }, after)

/-- The current token is the sign of the modifier, which has to end the path. -/
def modifier (parser : Parser) : Except Diagnostic Modifier := do
  let atName ← parser.next
  let (name, after) ← atName.identifier
  if name = "json" then
    if after.token.lexeme = .endOfText then return .json else after.reject .modifierNotLast
  else atName.reject (.unknownModifier name)

/-- The components up to the end of the text, and the modifier if one ends it. -/
def components : Nat → Parser → Except Diagnostic (List Component × Option Modifier)
  | 0, parser => parser.reject .expectedComponent
  | fuel + 1, parser =>
      match parser.token.lexeme with
      | .endOfText => .ok ([], none)
      | .symbol .dot => do
          let atName ← parser.next
          if atName.token.lexeme = .symbol .atSign then
            return ([], some (← atName.modifier))
          else
            let (name, after) ← atName.identifier
            let (later, modifier) ← components fuel after
            return (.name name :: later, modifier)
      | .symbol .openBracket => do
          let (component, after) ← parser.indexOrSlice
          let (later, modifier) ← components fuel after
          return (component :: later, modifier)
      | .symbol .openBrace => do
          let (component, after) ← parser.filter
          let (later, modifier) ← components fuel after
          return (component :: later, modifier)
      | _ => parser.reject .expectedComponent

/-- Reads a path from the current token on. -/
def path (parser : Parser) : Except Diagnostic Path := do
  let (topic, after) ← parser.topic
  let (components, modifier) ← after.components (parser.source.length + 1)
  return { source := String.ofList parser.source, topic, components, modifier }

end Parser

/-- Texts beyond this count of bytes are refused. -/
def maxByteLength : Nat :=
  4294967293

inductive ReadError where
  | tooLong
  | rejected (diagnostic : Diagnostic)
deriving DecidableEq

def ReadError.render (text : String) : ReadError → String
  | .tooLong => "path exceeds maximum allowed size " ++ toString maxByteLength
  | .rejected diagnostic => diagnostic.render text

/-- The parser at the first token of a text of admissible size. -/
def open? (text : String) : Except ReadError Parser :=
  if maxByteLength < text.utf8ByteSize then .error .tooLong
  else (Parser.start text.toList).mapError .rejected

def parse (text : String) : Except ReadError Path := do
  let parser ← open? text
  parser.path.mapError .rejected

def parse? (text : String) : Option Path :=
  (parse text).toOption

end MessageQuery.Path
