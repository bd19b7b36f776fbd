/-!
# Path diagnostics

A diagnostic names one fault of a path text and the byte column it points at, counted from one.
Its text shows the path with a caret below the column.
-/

namespace MessageQuery.Path

inductive Fault where
  | invalidCharacter
  | invalidNumber
  | unmatchedQuote (quote : Char)
  | invalidEscape
  | missingTopic
  | emptyTopic
  | expectedComponent
  | expectedIdentifier
  | expectedBound
  | unclosedIndex
  | expectedEquals
  | expectedOperand
  | unclosedFilter
  | unknownModifier (name : String)
  | modifierNotLast
deriving DecidableEq

def Fault.message : Fault → String
  | .invalidCharacter => "invalid character"
  | .invalidNumber => "invalid number"
  | .unmatchedQuote quote => "unmatched " ++ String.ofList [quote]
  | .invalidEscape => "invalid escape sequence"
  | .missingTopic => "path must start with `/`"
  | .emptyTopic => "expecting topic name after `/`"
  | .expectedComponent => "expecting `.`, `[` or `\x7b`"
  | .expectedIdentifier => "expecting identifier"
  | .expectedBound => "expecting index or slice"
  | .unclosedIndex => "expecting `]` to close index"
  | .expectedEquals => "expecting `==` in filter"
  | .expectedOperand => "expecting number, string or variable"
  | .unclosedFilter => "expecting `\x7d` to close filter"
  | .unknownModifier name => "unknown modifier `@" ++ name ++ "`"
  | .modifierNotLast => "modifier must end the path"

structure Diagnostic where
  column : Nat
  fault : Fault
deriving DecidableEq

/-- The text with a caret under the column and a message of the given kind. -/
def annotate (text : String) (column : Nat) (kind message : String) : String :=
  let indent := String.ofList (List.replicate (column - 1) ' ')
  "\n--> <path>:1:" ++ toString column ++ "\n  |\n1 | " ++ text ++ "\n  | " ++ indent ++ "^\n" ++
    kind ++ ": " ++ message

def annotateError (text : String) (column : Nat) (message : String) : String :=
  annotate text column "error" message

def Diagnostic.render (text : String) (diagnostic : Diagnostic) : String :=
  annotateError text diagnostic.column diagnostic.fault.message

end MessageQuery.Path
