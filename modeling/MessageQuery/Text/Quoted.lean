import MessageQuery.Text.Hexadecimal
import MessageQuery.Text.Printable

/-!
# Quoted text

Text for the eyes of a reader: backslash escapes for quotes, backslashes and the common controls,
and the code point in braces for other characters that cannot be seen by themselves.
-/

namespace MessageQuery.Text

structure EscapeRule where
  singleQuote : Bool
  graphemeExtend : Bool

def escapeChar (rule : EscapeRule) (c : Char) : List Char :=
  if c = '\x00' then ['\\', '0']
  else if c = '\t' then ['\\', 't']
  else if c = '\r' then ['\\', 'r']
  else if c = '\n' then ['\\', 'n']
  else if c = '\\' ∨ c = '"' ∨ (c = '\'' ∧ rule.singleQuote) then ['\\', c]
  else if isPrintable c && !(rule.graphemeExtend && isGraphemeExtend c) then [c]
  else ['\\', 'u', '{'] ++ hexDigits c.toNat ++ ['}']

/-- Only the first character can extend a grapheme that lies outside the text. -/
def escape : List Char → List Char
  | [] => []
  | first :: rest => escapeChar ⟨true, true⟩ first ++ rest.flatMap (escapeChar ⟨true, false⟩)

/-- The text between double quotes, where single quotes need no escape. -/
def quote (text : String) : String :=
  String.ofList ('"' :: text.toList.flatMap (escapeChar ⟨false, true⟩) ++ ['"'])

end MessageQuery.Text
