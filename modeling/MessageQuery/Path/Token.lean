import MessageQuery.Text.Bytes

/-!
# Path tokens

A token is a lexeme with the byte position where its text starts. The text of a quoted string
excludes the quotes and keeps its escapes.
-/

namespace MessageQuery.Path

inductive Symbol where
  | dot
  | openBracket
  | closeBracket
  | openBrace
  | closeBrace
  | colon
  | dollar
  | atSign
  | equals
deriving DecidableEq

def Symbol.text : Symbol → List Char
  | .dot => ['.']
  | .openBracket => ['[']
  | .closeBracket => [']']
  | .openBrace => ['{']
  | .closeBrace => ['}']
  | .colon => [':']
  | .dollar => ['$']
  | .atSign => ['@']
  | .equals => ['=', '=']

/-- The symbols of one character. -/
def Symbol.ofChar? : Char → Option Symbol
  | '.' => some .dot
  | '[' => some .openBracket
  | ']' => some .closeBracket
  | '{' => some .openBrace
  | '}' => some .closeBrace
  | ':' => some .colon
  | '$' => some .dollar
  | '@' => some .atSign
  | _ => none

theorem Symbol.text_of_ofChar? {c : Char} {symbol : Symbol} (found : ofChar? c = some symbol) :
    symbol.text = [c] := by
  unfold ofChar? at found
  split at found <;> simp_all [Symbol.text] <;> subst found <;> rfl

inductive Lexeme where
  | topic (name : List Char)
  | symbol (symbol : Symbol)
  | quoted (raw : List Char)
  | integer (digits : List Char)
  | identifier (name : List Char)
  | endOfText
deriving DecidableEq

def Lexeme.text : Lexeme → List Char
  | .topic name => name
  | .symbol s => s.text
  | .quoted raw => raw
  | .integer digits => digits
  | .identifier name => name
  | .endOfText => []

structure Token where
  lexeme : Lexeme
  start : Nat
deriving DecidableEq

namespace Token

def text (token : Token) : List Char :=
  token.lexeme.text

/-- The position just after the text of the token. -/
def stop (token : Token) : Nat :=
  token.start + Text.byteLength token.text

/-- The column of the first character, counted from one. -/
def column (token : Token) : Nat :=
  token.start + 1

/-- The text by which symbols and words are told apart; empty for a quoted string. -/
def keyText (token : Token) : List Char :=
  match token.lexeme with
  | .quoted _ => []
  | lexeme => lexeme.text

end Token

end MessageQuery.Path
