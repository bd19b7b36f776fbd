import MessageQuery.Yaml.Scalar

/-!
# YAML tokens

Tokens make the layout of a text explicit: where block collections start and end, and which nodes
are keys. A node may turn out to be a simple key only when the colon after it is met, so the
scanner remembers where the last possible one started at each level of brackets.
-/

namespace MessageQuery.Yaml

inductive Token where
  | documentStart
  | documentEnd
  | blockSequenceStart
  | blockMappingStart
  | blockEnd
  | blockEntry
  | flowSequenceStart
  | flowSequenceEnd
  | flowMappingStart
  | flowMappingEnd
  | flowEntry
  | key
  | value
  | scalar (text : List Char) (isPlain : Bool)
deriving DecidableEq

/-- A node that may be a simple key. It is required to be one where a key of an open block mapping
is due. -/
structure PossibleKey where
  required : Bool
  tokenCount : Nat
  position : Nat
  line : Nat
  column : Nat

structure Scanner where
  cursor : Cursor
  tokens : List Token
  /-- The column of the innermost block collection; -1 outside of all. -/
  indent : Int
  outerIndents : List Int
  keyAllowed : Bool
  /-- The possible key at each level of brackets, innermost first. -/
  possibleKeys : List (Option PossibleKey)

namespace Scanner

def start (text : List Char) : Scanner :=
  ⟨.ofText text, [], -1, [], true, [none]⟩

def inFlow (s : Scanner) : Bool :=
  1 < s.possibleKeys.length

def emit (s : Scanner) (token : Token) : Scanner :=
  { s with tokens := s.tokens ++ [token] }

def emitAt (s : Scanner) (position : Nat) (token : Token) : Scanner :=
  { s with tokens := s.tokens.take position ++ token :: s.tokens.drop position }

def advance (s : Scanner) (count : Nat) : Scanner :=
  { s with cursor := s.cursor.advance count }

def allowKey (s : Scanner) (allowed : Bool) : Scanner :=
  { s with keyAllowed := allowed }

/-! ## Simple keys -/

def putKey (s : Scanner) (key? : Option PossibleKey) : Scanner :=
  { s with possibleKeys := key? :: s.possibleKeys.tail }

/-- Gives up the possible key of this level, unless it is required. -/
def dropKey (s : Scanner) : Option Scanner :=
  match s.possibleKeys with
  | some key :: _ => if key.required then none else some (s.putKey none)
  | _ => some s

/-- Remembers the node at the cursor as a possible key. -/
def saveKey (s : Scanner) : Option Scanner :=
  if s.keyAllowed then do
    let dropped ← s.dropKey
    let required := !s.inFlow && s.indent == (s.cursor.column : Int)
    return dropped.putKey
      (some ⟨required, s.tokens.length, s.cursor.position, s.cursor.line, s.cursor.column⟩)
  else some s

/-- A key lies on one line and starts at most 1024 bytes before its colon. -/
def isStale (cursor : Cursor) (key : PossibleKey) : Bool :=
  key.line < cursor.line || key.position + 1024 < cursor.position

def dropStaleKeys (s : Scanner) : Option Scanner := do
  let keys ← s.possibleKeys.mapM fun key? =>
    match key? with
    | some key =>
        if isStale s.cursor key then (if key.required then none else some none) else some key?
    | none => some none
  return { s with possibleKeys := keys }

/-! ## Indentation -/

/-- Opens a block collection at a column beyond the innermost one. -/
def openBlock (s : Scanner) (column position : Nat) (token : Token) : Scanner :=
  if !s.inFlow && s.indent < (column : Int) then
    { s.emitAt position token with indent := column, outerIndents := s.indent :: s.outerIndents }
  else s

def closeBlocksFrom (column : Int) : Int → List Int → List Token → Scanner → Scanner
  | indent, outer :: outers, ends, s =>
      if column < indent then closeBlocksFrom column outer outers (ends ++ [.blockEnd]) s
      else { s with indent, outerIndents := outer :: outers, tokens := s.tokens ++ ends }
  | indent, [], ends, s => { s with indent, outerIndents := [], tokens := s.tokens ++ ends }

/-- Closes the block collections that lie beyond the column. -/
def closeBlocks (s : Scanner) (column : Int) : Scanner :=
  if s.inFlow then s else closeBlocksFrom column s.indent s.outerIndents [] s

/-! ## Blanks and comments -/

/-- Tabs separate tokens only where no key may start. -/
def skipToToken : Nat → Scanner → Scanner
  | 0, s => s
  | fuel + 1, s =>
      let marked :=
        if s.cursor.column = 0 ∧ s.cursor.rest.head? = some '\ufeff' then s.advance 1 else s
      let tabs := s.inFlow || !s.keyAllowed
      let spaced := marked.cursor.skipWhile fun c => c == ' ' || (tabs && c == '\t')
      let ended := if spaced.rest.head? == some '#' then spaced.skipLineRest else spaced
      if ended.rest.head?.any isBreak then
        skipToToken fuel
          { s with cursor := ended.takeBreak.2, keyAllowed := s.keyAllowed || !s.inFlow }
      else { s with cursor := ended }

/-! ## Single tokens -/

def documentMark (s : Scanner) (token : Token) : Option Scanner := do
  let closed ← (s.closeBlocks (-1)).dropKey
  return ((closed.allowKey false).advance 3).emit token

def openFlow (s : Scanner) (token : Token) : Option Scanner := do
  let saved ← s.saveKey
  let inner := { saved with possibleKeys := none :: saved.possibleKeys, keyAllowed := true }
  return (inner.advance 1).emit token

def closeFlow (s : Scanner) (token : Token) : Option Scanner := do
  let dropped ← s.dropKey
  let keys := if s.inFlow then dropped.possibleKeys.tail else dropped.possibleKeys
  return ({ dropped with possibleKeys := keys, keyAllowed := false }.advance 1).emit token

def flowEntry (s : Scanner) : Option Scanner := do
  return (((← s.dropKey).allowKey true).advance 1).emit .flowEntry

/-- Outside brackets an entry may start only where a key may. -/
def blockEntry (s : Scanner) : Option Scanner := do
  if !s.inFlow && !s.keyAllowed then none
  else
    let opened := s.openBlock s.cursor.column s.tokens.length .blockSequenceStart
    return (((← opened.dropKey).allowKey true).advance 1).emit .blockEntry

def explicitKey (s : Scanner) : Option Scanner := do
  if !s.inFlow && !s.keyAllowed then none
  else
    let opened := s.openBlock s.cursor.column s.tokens.length .blockMappingStart
    return (((← opened.dropKey).allowKey !s.inFlow).advance 1).emit .key

/-- A colon turns the possible key of this level into a key; without one the key was explicit. -/
def mappingValue (s : Scanner) : Option Scanner :=
  match s.possibleKeys with
  | some key :: _ =>
      let keyed := s.emitAt key.tokenCount .key
      let opened := keyed.openBlock key.column key.tokenCount .blockMappingStart
      some ((((opened.putKey none).allowKey false).advance 1).emit .value)
  | _ =>
      if !s.inFlow && !s.keyAllowed then none
      else
        let opened := s.openBlock s.cursor.column s.tokens.length .blockMappingStart
        some (((opened.allowKey !s.inFlow).advance 1).emit .value)

def quotedScalar (s : Scanner) (quote : Char) : Option Scanner := do
  let saved ← s.saveKey
  let (text, after) ← Scalar.quoted quote s.cursor
  return { saved with cursor := after, keyAllowed := false }.emit (.scalar text false)

def blockScalar (s : Scanner) (folded : Bool) : Option Scanner := do
  let dropped ← s.dropKey
  let (text, after) ← Scalar.block folded s.indent s.cursor
  return { dropped with cursor := after, keyAllowed := true }.emit (.scalar text false)

def plainScalar (s : Scanner) : Option Scanner := do
  let saved ← s.saveKey
  let plain ← Scalar.plain s.inFlow (s.indent + 1).toNat s.cursor
  return { saved with cursor := plain.after, keyAllowed := plain.broken }.emit
    (.scalar plain.text true)

/-- Indicators start no plain scalar, but for a dash before anything but a blank, and outside
brackets a question mark or a colon before anything but a separator. -/
def startsPlain (inFlow : Bool) (c : Char) (rest : List Char) : Bool :=
  if c == '-' then !(rest.head?.any isBlank)
  else if c == '?' || c == ':' then !inFlow && !atSeparator rest
  else !(isBlank c || "\x7b\x7d[],#&*!|>'\"%@".toList.contains c || c == '\x60')

/-- The token at the cursor. Directives, anchors, aliases and tags are refused. -/
def readToken (s : Scanner) (c : Char) (rest : List Char) : Option Scanner :=
  if s.cursor.column = 0 ∧ c = '%' then none
  else if s.cursor.atDocumentMark then
    s.documentMark (if c = '-' then .documentStart else .documentEnd)
  else if c = '[' then s.openFlow .flowSequenceStart
  else if c = '{' then s.openFlow .flowMappingStart
  else if c = ']' then s.closeFlow .flowSequenceEnd
  else if c = '}' then s.closeFlow .flowMappingEnd
  else if c = ',' then s.flowEntry
  else if c = '-' ∧ atSeparator rest then s.blockEntry
  else if c = '?' ∧ (s.inFlow ∨ atSeparator rest) then s.explicitKey
  else if c = ':' ∧ (s.inFlow ∨ atSeparator rest) then s.mappingValue
  else if c = '|' ∧ !s.inFlow then s.blockScalar false
  else if c = '>' ∧ !s.inFlow then s.blockScalar true
  else if c = '\'' ∨ c = '"' then s.quotedScalar c
  else if startsPlain s.inFlow c rest then s.plainScalar
  else none

/-- At the end of the text all block collections close, and no required key may be open. -/
def finish (s : Scanner) : Option (List Token) := do
  let closed ← (s.closeBlocks (-1)).dropKey
  return closed.tokens

def run : Nat → Scanner → Option (List Token)
  | 0, _ => none
  | fuel + 1, s => do
      let here ← (skipToToken (s.cursor.rest.length + 1) s).dropStaleKeys
      let level := here.closeBlocks here.cursor.column
      match level.cursor.rest with
      | [] => level.finish
      | c :: rest => run fuel (← level.readToken c rest)

end Scanner

/-- The tokens of a text, if its characters and its layout are admissible. -/
def tokens? (text : List Char) : Option (List Token) :=
  if text.all isAllowed then (Scanner.start text).run (text.length + 2) else none

end MessageQuery.Yaml
