import MessageQuery.Text.Digits
import MessageQuery.Text.Hexadecimal
import MessageQuery.Yaml.Cursor

/-!
# YAML scalars

The text of a scalar in each of its styles: plain, in single or double quotes, and in a literal or
folded block. Each reading function gives the text and the cursor after the scalar, or nothing
where the text is at fault.
-/

namespace MessageQuery.Yaml.Scalar

/-! ## Plain scalars -/

def isFlowIndicator (c : Char) : Bool :=
  c == ',' || c == '[' || c == ']' || c == '{' || c == '}'

/-- A colon inside brackets may not stand before these. -/
def refusedAfterColon : List Char → Bool
  | c :: _ => isFlowIndicator c || c == '?'
  | [] => false

/-- The characters of a plain scalar up to a blank, a line break or an indicator that ends it. -/
def plainRun (inFlow : Bool) : List Char → Option (List Char)
  | [] => some []
  | c :: rest =>
      if isBlank c || isBreak c then some []
      else if inFlow && c == ':' && refusedAfterColon rest then none
      else if (c == ':' && atSeparator rest) || (inFlow && isFlowIndicator c) then some []
      else (plainRun inFlow rest).map (c :: ·)

/-- A plain scalar, and whether it ended after a line break. -/
structure Plain where
  text : List Char
  broken : Bool
  after : Cursor

/-- Goes on after the gap. Outside brackets a later line has to start at the least column. -/
def plainFrom (inFlow : Bool) (leastColumn : Nat) : Nat → List Char → Gap → Cursor → Option Plain
  | 0, _, _, _ => none
  | fuel + 1, text, gap, cursor => do
      if cursor.atDocumentMark || cursor.rest.head? == some '#' then
        return ⟨text, gap.broken, cursor⟩
      else
        let run ← plainRun inFlow cursor.rest
        if run.isEmpty then return ⟨text, gap.broken, cursor⟩
        else
          let longer := text ++ gap.text ++ run
          let ended := cursor.advance run.length
          let (next, after) ← Gap.read leastColumn (ended.rest.length + 1) .empty ended
          if after.position = ended.position || (!inFlow && after.column < leastColumn) then
            return ⟨longer, next.broken, after⟩
          else plainFrom inFlow leastColumn fuel longer next after

def plain (inFlow : Bool) (leastColumn : Nat) (cursor : Cursor) : Option Plain :=
  plainFrom inFlow leastColumn (cursor.rest.length + 1) [] .empty cursor

/-! ## Quoted scalars -/

/-- The character of the code point spelled by so many hexadecimal digits. -/
def codePoint? (count : Nat) (cs : List Char) : Option Char := do
  let digits ← (cs.take count).mapM Text.hexValue?
  let n := Text.natOfBase 16 digits
  if digits.length < count || 0x10FFFF < n || (0xD800 ≤ n && n ≤ 0xDFFF) then none
  else return Char.ofNat n

/-- The character that an escape stands for, given what follows its backslash, and the length of
the escape after the backslash. -/
def escape? : List Char → Option (Char × Nat)
  | [] => none
  | c :: rest =>
      match c with
      | '0' => some ('\x00', 1)
      | 'a' => some ('\x07', 1)
      | 'b' => some ('\x08', 1)
      | 't' | '\t' => some ('\t', 1)
      | 'n' => some ('\n', 1)
      | 'v' => some ('\x0b', 1)
      | 'f' => some ('\x0c', 1)
      | 'r' => some ('\r', 1)
      | 'e' => some ('\x1b', 1)
      | ' ' => some (' ', 1)
      | '"' => some ('"', 1)
      | '/' => some ('/', 1)
      | '\\' => some ('\\', 1)
      | 'N' => some ('\x85', 1)
      | '_' => some ('\u00a0', 1)
      | 'L' => some ('\u2028', 1)
      | 'P' => some ('\u2029', 1)
      | 'x' => (codePoint? 2 rest).map (·, 3)
      | 'u' => (codePoint? 4 rest).map (·, 5)
      | 'U' => (codePoint? 8 rest).map (·, 9)
      | _ => none

/-- How a run of a quoted scalar ends: at a gap or the closing quote, or after an escaped line
break. -/
structure QuotedRun where
  text : List Char
  escapedBreak : Bool
  after : Cursor

def QuotedRun.cons (c : Char) (run : QuotedRun) : QuotedRun :=
  { run with text := c :: run.text }

def singleRun : Nat → Cursor → Option QuotedRun
  | 0, _ => none
  | fuel + 1, cursor =>
      match cursor.rest with
      | '\'' :: '\'' :: _ => (singleRun fuel (cursor.advance 2)).map (QuotedRun.cons '\'')
      | c :: _ =>
          if c = '\'' || isBlank c || isBreak c then some ⟨[], false, cursor⟩
          else (singleRun fuel (cursor.advance 1)).map (QuotedRun.cons c)
      | [] => some ⟨[], false, cursor⟩

def doubleRun : Nat → Cursor → Option QuotedRun
  | 0, _ => none
  | fuel + 1, cursor =>
      match cursor.rest with
      | '\\' :: rest =>
          if rest.head?.any isBreak then some ⟨[], true, (cursor.advance 1).takeBreak.2⟩
          else
            match escape? rest with
            | some (c, length) =>
                (doubleRun fuel (cursor.advance (length + 1))).map (QuotedRun.cons c)
            | none => none
      | c :: _ =>
          if c = '"' || isBlank c || isBreak c then some ⟨[], false, cursor⟩
          else (doubleRun fuel (cursor.advance 1)).map (QuotedRun.cons c)
      | [] => some ⟨[], false, cursor⟩

/-- The rest of a quoted scalar with its closing quote. No line of it may be a document mark. -/
def quotedFrom (quote : Char) : Nat → List Char → Cursor → Option (List Char × Cursor)
  | 0, _, _ => none
  | fuel + 1, text, cursor => do
      if cursor.atDocumentMark || cursor.rest.isEmpty then none
      else
        let size := cursor.rest.length + 1
        let run ← if quote = '\'' then singleRun size cursor else doubleRun size cursor
        let longer := text ++ run.text
        if run.after.rest.head? == some quote then
          return (longer, run.after.advance 1)
        else
          let start := if run.escapedBreak then Gap.afterBreak else .empty
          let (gap, after) ← Gap.read 0 size start run.after
          quotedFrom quote fuel (longer ++ gap.text) after

/-- The cursor stands at the opening quote. -/
def quoted (quote : Char) (cursor : Cursor) : Option (List Char × Cursor) :=
  quotedFrom quote (cursor.rest.length + 1) [] (cursor.advance 1)

/-! ## Block scalars -/

/-- What becomes of the line breaks at the end of a block. -/
inductive Chomping where
  | strip
  | clip
  | keep
deriving DecidableEq

def chomping? : Char → Option Chomping
  | '-' => some .strip
  | '+' => some .keep
  | _ => none

structure BlockHeader where
  chomping : Chomping
  /-- Columns that the block is indented beyond its surroundings; zero if not given. -/
  increment : Nat
  after : Cursor

/-- The indicators after the bar or the angle, in either order. -/
def blockHeader (cursor : Cursor) : Option BlockHeader :=
  match cursor.rest with
  | c :: rest =>
      match chomping? c with
      | some chomping =>
          match rest with
          | d :: _ =>
              if d = '0' then none
              else if d.isDigit then some ⟨chomping, Text.digitValue d, cursor.advance 2⟩
              else some ⟨chomping, 0, cursor.advance 1⟩
          | [] => some ⟨chomping, 0, cursor.advance 1⟩
      | none =>
          if c = '0' then none
          else if c.isDigit then
            match rest.head?.bind chomping? with
            | some chomping => some ⟨chomping, Text.digitValue c, cursor.advance 2⟩
            | none => some ⟨.clip, Text.digitValue c, cursor.advance 1⟩
          else some ⟨.clip, 0, cursor⟩
  | [] => some ⟨.clip, 0, cursor⟩

/-- Blanks, a comment and the line break that ends the header. -/
def headerEnd (cursor : Cursor) : Option Cursor :=
  let spaced := cursor.skipWhile isBlank
  let ended := if spaced.rest.head? == some '#' then spaced.skipLineRest else spaced
  match ended.rest with
  | [] => some ended
  | c :: _ => if isBreak c then some ended.takeBreak.2 else none

/-- Empty lines and indentation. `indent` is zero while it is not known; the greatest column met
on the way is returned with the breaks. -/
def blockBreaks (indent : Nat) : Nat → Nat → Cursor → Option (List Char × Nat × Cursor)
  | 0, greatest, cursor => some ([], greatest, cursor)
  | fuel + 1, greatest, cursor => do
      let blanks := (cursor.rest.takeWhile (· == ' ')).length
      let steps := if indent = 0 then blanks else min blanks (indent - cursor.column)
      let inner := cursor.advance steps
      let greatest := max greatest inner.column
      match inner.rest with
      | [] => return ([], greatest, inner)
      | c :: _ =>
          if c = '\t' && (indent = 0 || inner.column < indent) then none
          else if isBreak c then
            let (text, after) := inner.takeBreak
            let (later, last) ← blockBreaks indent fuel greatest after
            return (text ++ later, last)
          else return ([], greatest, inner)

/-- The breaks met so far inside a block. -/
structure BlockBreaks where
  afterLine : List Char
  empty : List Char
  /-- Whether the line before started with a blank. -/
  blankLine : Bool

def blockLines (folded : Bool) (indent : Nat) :
    Nat → List Char → BlockBreaks → Cursor → Option (List Char × BlockBreaks × Cursor)
  | 0, _, _, _ => none
  | fuel + 1, text, breaks, cursor => do
      if cursor.column ≠ indent || cursor.rest.isEmpty then return (text, breaks, cursor)
      else
        let startsBlank := cursor.rest.head?.any isBlank
        let folds := folded && breaks.afterLine == ['\n'] && !breaks.blankLine && !startsBlank
        let joint :=
          if folds then (if breaks.empty.isEmpty then [' '] else []) else breaks.afterLine
        let line := cursor.rest.takeWhile fun c => !isBreak c
        let (lineBreak, next) := (cursor.advance line.length).takeBreak
        let (empty, _, after) ← blockBreaks indent (next.rest.length + 1) 0 next
        blockLines folded indent fuel (text ++ joint ++ breaks.empty ++ line)
          ⟨lineBreak, empty, startsBlank⟩ after

/-- A block scalar whose indicator is next; `parent` is the indentation around it. -/
def block (folded : Bool) (parent : Int) (cursor : Cursor) : Option (List Char × Cursor) := do
  let header ← blockHeader (cursor.advance 1)
  let first ← headerEnd header.after
  let given := if header.increment = 0 then 0 else (max parent 0).toNat + header.increment
  let (empty, greatest, start) ← blockBreaks given (first.rest.length + 1) 0 first
  let indent := if given = 0 then max greatest (max (parent + 1).toNat 1) else given
  let (text, breaks, after) ←
    blockLines folded indent (start.rest.length + 2) [] ⟨[], empty, false⟩ start
  let ending := match header.chomping with
    | .strip => []
    | .clip => breaks.afterLine
    | .keep => breaks.afterLine ++ breaks.empty
  return (text ++ ending, after)

end MessageQuery.Yaml.Scalar
