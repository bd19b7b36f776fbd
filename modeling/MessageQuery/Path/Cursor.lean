import MessageQuery.Path.Diagnostic
import MessageQuery.Path.Token

/-!
# Path cursors

A cursor is a place in a path text: the characters still to come, the byte position, and how many
brackets and braces are open. `next` gives the token at the cursor, or a diagnostic, and the
cursor after it. Blanks are passed over only inside brackets and braces, and a topic is read only
at the very start.
-/

namespace MessageQuery.Path

structure Cursor where
  rest : List Char
  offset : Nat
  depth : Nat
deriving DecidableEq

namespace Cursor

def ofText (text : List Char) : Cursor :=
  ⟨text, 0, 0⟩

/-- Steps over the given count of characters. -/
def advance (cursor : Cursor) (count : Nat) : Cursor :=
  { cursor with
    rest := cursor.rest.drop count
    offset := cursor.offset + Text.byteLength (cursor.rest.take count) }

/-- The position of the end of the text. -/
def finish (cursor : Cursor) : Nat :=
  cursor.offset + Text.byteLength cursor.rest

theorem finish_advance (cursor : Cursor) (count : Nat) :
    (cursor.advance count).finish = cursor.finish := by
  simp only [finish, advance, Nat.add_assoc, Text.byteLength_take_add_drop]

def isAsciiAlphanumeric (c : Char) : Bool :=
  c.isAlpha || c.isDigit

def isTopicChar (c : Char) : Bool :=
  isAsciiAlphanumeric c || c == '_' || c == '/' || c == '-'

def isIdentifierStart (c : Char) : Bool :=
  c.isAlpha || c == '_'

def isIdentifierChar (c : Char) : Bool :=
  isAsciiAlphanumeric c || c == '_'

def isInlineBlank (c : Char) : Bool :=
  c == ' ' || c == '\t'

def isQuote (c : Char) : Bool :=
  c == '\'' || c == '"'

/-- The characters that a backslash may stand before. -/
def isEscapable (c : Char) : Bool :=
  c == '\\' || isQuote c

/-- The outcome of a token step. -/
abbrev Step := Except Diagnostic Token × Cursor

/-- The next `count` characters as one token. -/
def take (cursor : Cursor) (count : Nat) (lexeme : List Char → Lexeme) : Step :=
  (.ok ⟨lexeme (cursor.rest.take count), cursor.offset⟩, cursor.advance count)

/-- A fault at the cursor itself, which leaves the cursor where it is. -/
def fault (cursor : Cursor) (cause : Fault) : Step :=
  (.error ⟨cursor.offset + 1, cause⟩, cursor)

/-- A slash and the topic characters after it. -/
def readTopic (cursor : Cursor) : Step :=
  cursor.take ((cursor.rest.drop 1).takeWhile isTopicChar).length.succ .topic

def readIdentifier (cursor : Cursor) : Step :=
  cursor.take (cursor.rest.takeWhile isIdentifierChar).length .identifier

/-- The length of an optional minus sign and the digits after it. -/
def integerLength : List Char → Nat
  | '-' :: rest => (rest.takeWhile Char.isDigit).length + 1
  | cs => (cs.takeWhile Char.isDigit).length

def continuesNumber (c : Char) : Bool :=
  c == '_' || c == '.' || c.isAlpha

/-- Only integers: a fraction, an exponent or a letter after the digits is a fault there. -/
def readInteger (cursor : Cursor) : Step :=
  let step := cursor.take (integerLength cursor.rest) .integer
  match step.2.rest with
  | c :: _ => if continuesNumber c then step.2.fault .invalidNumber else step
  | [] => step

/-- How the scan of a quoted string ends, after so many characters of its body. -/
inductive QuotedEnd where
  | closed (length : Nat)
  | badEscape (length : Nat)
  | unmatched
deriving DecidableEq

/-- Lengthens the body in front of the end. -/
def QuotedEnd.after (count : Nat) : QuotedEnd → QuotedEnd
  | .closed length => .closed (length + count)
  | .badEscape length => .badEscape (length + count)
  | .unmatched => .unmatched

def scanQuoted (quote : Char) : List Char → QuotedEnd
  | [] => .unmatched
  | '\\' :: [] => .badEscape 0
  | '\\' :: escaped :: rest =>
      if isEscapable escaped then (scanQuoted quote rest).after 2 else .badEscape 0
  | c :: rest => if c = quote then .closed 0 else (scanQuoted quote rest).after 1

/-- The cursor stands at the opening quote. A bad escape leaves it after the backslash, a missing
closing quote at the end of the text. -/
def readQuoted (cursor : Cursor) (quote : Char) : Step :=
  let body := cursor.advance 1
  match scanQuoted quote body.rest with
  | .closed length =>
      let (token, after) := body.take length .quoted
      (token, after.advance 1)
  | .badEscape length =>
      let here := body.advance length
      (.error ⟨here.offset + 1, .invalidEscape⟩, here.advance 1)
  | .unmatched =>
      (.error ⟨cursor.offset + 1, .unmatchedQuote quote⟩, body.advance body.rest.length)

def depthAfter (depth : Nat) : Symbol → Nat
  | .openBracket | .openBrace => depth + 1
  | .closeBracket | .closeBrace => depth - 1
  | _ => depth

def readSymbol (cursor : Cursor) (symbol : Symbol) : Step :=
  let (token, after) := cursor.take symbol.text.length fun _ => .symbol symbol
  (token, { after with depth := depthAfter cursor.depth symbol })

def skipBlanks (cursor : Cursor) : Cursor :=
  if cursor.depth = 0 then cursor
  else cursor.advance (cursor.rest.takeWhile isInlineBlank).length

def startsWithDigit : List Char → Bool
  | c :: _ => c.isDigit
  | [] => false

/-- The token that starts with the character at the cursor. -/
def readToken (cursor : Cursor) : Step :=
  match cursor.rest with
  | [] => (.ok ⟨.endOfText, cursor.offset⟩, cursor)
  | c :: rest =>
      match Symbol.ofChar? c with
      | some symbol => cursor.readSymbol symbol
      | none =>
          if c = '=' ∧ rest.head? = some '=' then cursor.readSymbol .equals
          else if c.isDigit || (c == '-' && startsWithDigit rest) then cursor.readInteger
          else if isQuote c then cursor.readQuoted c
          else if isIdentifierStart c then cursor.readIdentifier
          else cursor.fault .invalidCharacter

def next (cursor : Cursor) : Step :=
  if cursor.offset = 0 ∧ cursor.rest.head? = some '/' then cursor.readTopic
  else cursor.skipBlanks.readToken

theorem finish_readToken (cursor : Cursor) : cursor.readToken.2.finish = cursor.finish := by
  unfold readToken
  split
  · rfl
  · split
    · exact finish_advance _ _
    · split
      · exact finish_advance _ _
      · split
        · unfold readInteger
          simp only
          split
          · split
            · exact finish_advance _ _
            · exact finish_advance _ _
          · exact finish_advance _ _
        · split
          · unfold readQuoted
            simp only
            split
            · simp only [take, finish_advance]
            · simp only [finish_advance]
            · simp only [finish_advance]
          · split
            · exact finish_advance _ _
            · rfl

theorem finish_next (cursor : Cursor) : cursor.next.2.finish = cursor.finish := by
  unfold next
  split
  · exact finish_advance _ _
  · rw [finish_readToken]
    unfold skipBlanks
    split
    · rfl
    · exact finish_advance _ _

/-- The tokens up to the end of the text, which is the last token, or up to the first fault. -/
def tokens : Nat → Cursor → List Token × Option Diagnostic
  | 0, _ => ([], none)
  | fuel + 1, cursor =>
      match cursor.next with
      | (.error diagnostic, _) => ([], some diagnostic)
      | (.ok token, after) =>
          if token.lexeme = .endOfText then ([token], none)
          else
            let (later, end?) := tokens fuel after
            (token :: later, end?)

end Cursor

/-- The tokens of a text. Every token but the last takes at least one character. -/
def tokens (text : List Char) : List Token × Option Diagnostic :=
  (Cursor.ofText text).tokens (text.length + 1)

end MessageQuery.Path
