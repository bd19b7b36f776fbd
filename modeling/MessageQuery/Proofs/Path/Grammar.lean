import MessageQuery.Path.Parser

/-!
# The grammar of paths

A phrase is a list of characters. The relations below say which phrases there are, and what each
of them means as a part of a path; the positions in a meaning count bytes, so a phrase that holds
positions is given the byte at which it starts. Blanks may stand only where a rule names them,
which is inside brackets and braces. No rule looks beyond its own phrase.
-/

namespace MessageQuery.Path

open Text (byteLength)

namespace Grammar

/-! ## Characters -/

def IsLetter (c : Char) : Prop :=
  ('A' ≤ c ∧ c ≤ 'Z') ∨ ('a' ≤ c ∧ c ≤ 'z')

def IsDigit (c : Char) : Prop :=
  '0' ≤ c ∧ c ≤ '9'

def Blanks (cs : List Char) : Prop :=
  ∀ c ∈ cs, c = ' ' ∨ c = '\t'

/-! ## Words -/

inductive Topic : List Char → Prop where
  | mk {first : Char} {rest : List Char}
      (allowed : ∀ c ∈ first :: rest, IsLetter c ∨ IsDigit c ∨ c = '_' ∨ c = '/' ∨ c = '-') :
      Topic ('/' :: first :: rest)

inductive Identifier : List Char → Prop where
  | mk {first : Char} {rest : List Char} (head : IsLetter first ∨ first = '_')
      (tail : ∀ c ∈ rest, IsLetter c ∨ IsDigit c ∨ c = '_') : Identifier (first :: rest)

inductive Digits : List Char → Nat → Prop where
  | one {c : Char} (digit : IsDigit c) : Digits [c] (c.toNat - '0'.toNat)
  | more {cs : List Char} {n : Nat} {c : Char} (before : Digits cs n) (digit : IsDigit c) :
      Digits (cs ++ [c]) (10 * n + (c.toNat - '0'.toNat))

inductive Integer : List Char → Int → Prop where
  | plain {cs : List Char} {n : Nat} (digits : Digits cs n) : Integer cs n
  | negative {cs : List Char} {n : Nat} (digits : Digits cs n) : Integer ('-' :: cs) (-n)

/-- What stands between two quotes, and the text that it spells. -/
inductive QuotedBody (quote : Char) : List Char → List Char → Prop where
  | nil : QuotedBody quote [] []
  | plain {c : Char} {raw spelled : List Char} (noEscape : c ≠ '\\') (noQuote : c ≠ quote)
      (later : QuotedBody quote raw spelled) : QuotedBody quote (c :: raw) (c :: spelled)
  | escaped {c : Char} {raw spelled : List Char} (escapable : c = '\\' ∨ c = '\'' ∨ c = '"')
      (later : QuotedBody quote raw spelled) : QuotedBody quote ('\\' :: c :: raw) (c :: spelled)

inductive Quoted : List Char → List Char → Prop where
  | mk {quote : Char} {raw spelled : List Char} (isQuote : quote = '\'' ∨ quote = '"')
      (body : QuotedBody quote raw spelled) : Quoted (quote :: (raw ++ [quote])) spelled

/-! ## Operands -/

/-- A reference has the position of its dollar sign. -/
inductive Reference (start : Nat) : List Char → Operand → Prop where
  | mk {blanks name : List Char} (isBlanks : Blanks blanks) (isName : Identifier name) :
      Reference start ('$' :: (blanks ++ name)) (.reference (String.ofList name) start)

inductive Bound (start : Nat) : List Char → Operand → Prop where
  | integer {cs : List Char} {n : Int} (spells : Integer cs n) :
      Bound start cs (.literal (.ofInt n))
  | reference {cs : List Char} {operand : Operand} (refers : Reference start cs operand) :
      Bound start cs operand

inductive OptionalBound (start : Nat) : List Char → Option Operand → Prop where
  | absent : OptionalBound start [] none
  | present {cs : List Char} {operand : Operand} (bound : Bound start cs operand) :
      OptionalBound start cs (some operand)

/-- The position of a value is that of its first character; of a quoted text that is the one after
the quote. -/
inductive FilterValue (start : Nat) : List Char → Operand → Nat → Prop where
  | bound {cs : List Char} {operand : Operand} (bound : Bound start cs operand) :
      FilterValue start cs operand start
  | quoted {cs spelled : List Char} (spells : Quoted cs spelled) :
      FilterValue start cs (.literal (.string (String.ofList spelled))) (start + 1)

/-! ## Components -/

inductive FieldPath : List Char → List String → Prop where
  | last {name : List Char} (isName : Identifier name) : FieldPath name [String.ofList name]
  | more {name before after later : List Char} {names : List String} (isName : Identifier name)
      (blanksBefore : Blanks before) (blanksAfter : Blanks after) (rest : FieldPath later names) :
      FieldPath (name ++ (before ++ '.' :: (after ++ later))) (String.ofList name :: names)

/-- What stands between the brackets. -/
inductive IndexBody (start : Nat) : List Char → Path.Component → Prop where
  | index {before cs after : List Char} {operand : Operand} (blanksBefore : Blanks before)
      (bound : Bound (start + byteLength before) cs operand) (blanksAfter : Blanks after) :
      IndexBody start (before ++ (cs ++ after)) (.index operand)
  | slice {before cs middle : List Char} {first : Option Operand} (blanksBefore : Blanks before)
      (bound : OptionalBound (start + byteLength before) cs first) (blanksMiddle : Blanks middle)
      {between ds after : List Char} {second : Option Operand} (blanksBetween : Blanks between)
      (stop : OptionalBound (start + byteLength (before ++ (cs ++ (middle ++ ':' :: between))))
        ds second) (blanksAfter : Blanks after) :
      IndexBody start (before ++ (cs ++ (middle ++ ':' :: (between ++ (ds ++ after)))))
        (.slice first second)

/-- What stands between the braces, which the filter keeps as it was written. -/
inductive FilterBody (start : Nat) : List Char → Path.Filter → Prop where
  | mk {before fields middle : List Char} {names : List String} (blanksBefore : Blanks before)
      (isPath : FieldPath fields names) (blanksMiddle : Blanks middle)
      {between cs after : List Char} {value : Operand} {position : Nat}
      (blanksBetween : Blanks between)
      (isValue : FilterValue
        (start + byteLength (before ++ (fields ++ (middle ++ '=' :: '=' :: between)))) cs value
        position) (blanksAfter : Blanks after) :
      FilterBody start (before ++ (fields ++ (middle ++ '=' :: '=' :: (between ++ (cs ++ after)))))
        { path := names
          value
          written := String.ofList
            (before ++ (fields ++ (middle ++ '=' :: '=' :: (between ++ (cs ++ after)))))
          namePosition := start + byteLength before
          valuePosition := position }

inductive Component (start : Nat) : List Char → Path.Component → Prop where
  | name {name : List Char} (isName : Identifier name) :
      Component start ('.' :: name) (.name (String.ofList name))
  | index {body : List Char} {component : Path.Component}
      (isBody : IndexBody (start + 1) body component) :
      Component start ('[' :: (body ++ [']'])) component
  | filter {body : List Char} {filter : Path.Filter} (isBody : FilterBody (start + 1) body filter) :
      Component start ('{' :: (body ++ ['}'])) (.filter filter)

/-- The components up to the end of the text, and the modifier if one ends it. -/
inductive Components : Nat → List Char → List Path.Component → Option Modifier → Prop where
  | nil {start : Nat} : Components start [] [] none
  | json {start : Nat} : Components start ['.', '@', 'j', 's', 'o', 'n'] [] (some .json)
  | cons {start : Nat} {cs later : List Char} {component : Path.Component}
      {components : List Path.Component} {modifier : Option Modifier}
      (first : Component start cs component)
      (rest : Components (start + byteLength cs) later components modifier) :
      Components start (cs ++ later) (component :: components) modifier

end Grammar

/-- A text and the path that the grammar derives from it. -/
inductive Derives : String → Path → Prop where
  | mk {topic later : List Char} {components : List Path.Component}
      {modifier : Option Modifier} (isTopic : Grammar.Topic topic)
      (rest : Grammar.Components (byteLength topic) later components modifier) :
      Derives (String.ofList (topic ++ later))
        { source := String.ofList (topic ++ later), topic := String.ofList topic, components,
          modifier }

end MessageQuery.Path
