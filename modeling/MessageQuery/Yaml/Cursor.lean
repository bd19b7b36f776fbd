import MessageQuery.Text.Bytes

/-!
# YAML cursors

A cursor is a place in a YAML text with its line and column, which count characters, and its
position, which counts the bytes of the UTF-8 form. Lines end with a carriage return, a line feed,
both in this order, or one of three other separators. A gap is a run of blanks and line breaks;
where it breaks a line it folds into one space or into the empty lines it holds.
-/

namespace MessageQuery.Yaml

def isBreak (c : Char) : Bool :=
  c == '\n' || c == '\r' || c == '\x85' || c == '\u2028' || c == '\u2029'

def isBlank (c : Char) : Bool :=
  c == ' ' || c == '\t'

/-- Whether the text ends here or goes on with a blank or a line break. -/
def atSeparator : List Char → Bool
  | [] => true
  | c :: _ => isBlank c || isBreak c

/-- The characters that a text may hold at all. -/
def isAllowed (c : Char) : Bool :=
  let n := c.toNat
  n == 0x09 || n == 0x0A || n == 0x0D || (0x20 ≤ n && n ≤ 0x7E) || n == 0x85 ||
    (0xA0 ≤ n && n != 0xFFFE && n != 0xFFFF)

structure Cursor where
  rest : List Char
  position : Nat
  line : Nat
  column : Nat

namespace Cursor

def ofText (text : List Char) : Cursor :=
  ⟨text, 0, 0, 0⟩

/-- Steps over so many characters of one line. -/
def advance (cursor : Cursor) (count : Nat) : Cursor :=
  { cursor with
    rest := cursor.rest.drop count
    position := cursor.position + Text.byteLength (cursor.rest.take count)
    column := cursor.column + count }

/-- The line break at the cursor as it counts in a scalar, and its length. -/
def breakText : List Char → List Char × Nat
  | '\r' :: '\n' :: _ => (['\n'], 2)
  | c :: _ =>
      if c = '\u2028' ∨ c = '\u2029' then ([c], 1) else if isBreak c then (['\n'], 1) else ([], 0)
  | [] => ([], 0)

/-- Steps over the line break at the cursor, if there is one. -/
def takeBreak (cursor : Cursor) : List Char × Cursor :=
  let (text, length) := breakText cursor.rest
  if length = 0 then ([], cursor)
  else
    (text,
      { rest := cursor.rest.drop length
        position := cursor.position + Text.byteLength (cursor.rest.take length)
        line := cursor.line + 1
        column := 0 })

/-- Three dashes or three dots alone at the start of a line. -/
def atDocumentMark (cursor : Cursor) : Bool :=
  cursor.column == 0 &&
    match cursor.rest with
    | '-' :: '-' :: '-' :: rest => atSeparator rest
    | '.' :: '.' :: '.' :: rest => atSeparator rest
    | _ => false

/-- Steps over the rest of the line, up to its break. -/
def skipLineRest (cursor : Cursor) : Cursor :=
  cursor.advance (cursor.rest.takeWhile fun c => !isBreak c).length

def skipWhile (cursor : Cursor) (p : Char → Bool) : Cursor :=
  cursor.advance (cursor.rest.takeWhile p).length

end Cursor

/-! ## Gaps -/

/-- `spaces` are the blanks before the first line break. -/
structure Gap where
  spaces : List Char
  broken : Bool
  firstBreak : List Char
  laterBreaks : List Char

namespace Gap

def empty : Gap :=
  ⟨[], false, [], []⟩

/-- A gap that follows a line break which does not count. -/
def afterBreak : Gap :=
  ⟨[], true, [], []⟩

/-- What a gap inside a scalar stands for. -/
def text (gap : Gap) : List Char :=
  if gap.broken then
    if gap.firstBreak = ['\n'] then
      if gap.laterBreaks.isEmpty then [' '] else gap.laterBreaks
    else gap.firstBreak ++ gap.laterBreaks
  else gap.spaces

/-- Reads on from the cursor. Where a least column is given, a tab before it in a new line is
refused. -/
def read (leastColumn : Nat) : Nat → Gap → Cursor → Option (Gap × Cursor)
  | 0, gap, cursor => some (gap, cursor)
  | fuel + 1, gap, cursor =>
      match cursor.rest with
      | [] => some (gap, cursor)
      | c :: _ =>
          if isBlank c then
            if gap.broken && c == '\t' && cursor.column < leastColumn then none
            else
              let longer := if gap.broken then gap else { gap with spaces := gap.spaces ++ [c] }
              read leastColumn fuel longer (cursor.advance 1)
          else if isBreak c then
            let (text, after) := cursor.takeBreak
            let longer :=
              if gap.broken then { gap with laterBreaks := gap.laterBreaks ++ text }
              else { gap with spaces := [], broken := true, firstBreak := text }
            read leastColumn fuel longer after
          else some (gap, cursor)

end Gap

end MessageQuery.Yaml
