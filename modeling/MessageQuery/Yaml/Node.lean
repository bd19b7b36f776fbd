import MessageQuery.Yaml.Token

/-!
# YAML nodes

The tree that the tokens of a text spell. A text holds at most one document; a missing key, value
or entry is an empty plain scalar.
-/

namespace MessageQuery.Yaml

inductive Node where
  /-- The content of a text without a document. -/
  | nothing
  | scalar (text : List Char) (isPlain : Bool)
  | sequence (items : List Node)
  | mapping (entries : List (Node × Node))

namespace Node

def emptyScalar : Node :=
  .scalar [] true

/-- A separator, from the second entry on, in front of the tokens; none if it is missing. -/
def separator? (first : Bool) : List Token → Option (List Token)
  | .flowEntry :: rest => if first then some (.flowEntry :: rest) else some rest
  | tokens => if first then some tokens else none

mutual

/-- A node at the front of the tokens. Block collections stand only outside brackets, and a
sequence without its own indentation only in a block mapping. -/
def parse : Nat → Bool → Bool → List Token → Option (Node × List Token)
  | 0, _, _, _ => none
  | fuel + 1, inBlock, inMapping, tokens =>
      match tokens with
      | .scalar text isPlain :: rest => some (.scalar text isPlain, rest)
      | .flowSequenceStart :: rest => (flowItems fuel true rest).map (Prod.map .sequence id)
      | .flowMappingStart :: rest => (flowEntries fuel true rest).map (Prod.map .mapping id)
      | .blockSequenceStart :: rest =>
          if inBlock then (blockItems fuel rest).map (Prod.map .sequence id) else none
      | .blockMappingStart :: rest =>
          if inBlock then (blockEntries fuel rest).map (Prod.map .mapping id) else none
      | .blockEntry :: _ =>
          if inMapping then (plainItems fuel tokens).map (Prod.map .sequence id) else none
      | _ => none

/-- The entries of an indented sequence, and its end. -/
def blockItems : Nat → List Token → Option (List Node × List Token)
  | 0, _ => none
  | fuel + 1, tokens =>
      match tokens with
      | .blockEntry :: rest => do
          let (item, after) ← match rest with
            | .blockEntry :: _ | .blockEnd :: _ => some (emptyScalar, rest)
            | _ => parse fuel true false rest
          let (items, last) ← blockItems fuel after
          return (item :: items, last)
      | .blockEnd :: rest => some ([], rest)
      | _ => none

/-- The entries of a sequence that is indented like the mapping around it. -/
def plainItems : Nat → List Token → Option (List Node × List Token)
  | 0, _ => none
  | fuel + 1, tokens =>
      match tokens with
      | .blockEntry :: rest => do
          let (item, after) ← match rest with
            | .blockEntry :: _ | .key :: _ | .value :: _ | .blockEnd :: _ =>
                some (emptyScalar, rest)
            | _ => parse fuel true false rest
          let (items, last) ← plainItems fuel after
          return (item :: items, last)
      | _ => some ([], tokens)

/-- A key or a value of a block mapping after its indicator. -/
def blockPart : Nat → List Token → Option (Node × List Token)
  | 0, _ => none
  | fuel + 1, tokens =>
      match tokens with
      | .key :: _ | .value :: _ | .blockEnd :: _ => some (emptyScalar, tokens)
      | _ => parse fuel true true tokens

/-- The entries of a block mapping, and its end. -/
def blockEntries : Nat → List Token → Option (List (Node × Node) × List Token)
  | 0, _ => none
  | fuel + 1, tokens =>
      match tokens with
      | .blockEnd :: rest => some ([], rest)
      | .key :: rest => do
          let (key, afterKey) ← blockPart fuel rest
          let (value, after) ← match afterKey with
            | .value :: rest => blockPart fuel rest
            | _ => some (emptyScalar, afterKey)
          let (entries, last) ← blockEntries fuel after
          return ((key, value) :: entries, last)
      | _ => none

/-- The single entry of a mapping that is written as an element of a sequence in brackets, after
its key indicator. A key that is left out takes the token after it along. -/
def pair : Nat → List Token → Option (Node × List Token)
  | 0, _ => none
  | fuel + 1, tokens => do
      let (key, afterKey) ← match tokens with
        | .value :: rest | .flowEntry :: rest | .flowSequenceEnd :: rest => some (emptyScalar, rest)
        | _ => parse fuel false false tokens
      let (value, after) ← match afterKey with
        | .value :: .flowEntry :: rest => some (emptyScalar, .flowEntry :: rest)
        | .value :: .flowSequenceEnd :: rest => some (emptyScalar, .flowSequenceEnd :: rest)
        | .value :: rest => parse fuel false false rest
        | _ => some (emptyScalar, afterKey)
      return (.mapping [(key, value)], after)

/-- The elements of a sequence in brackets, and the closing bracket. -/
def flowItems : Nat → Bool → List Token → Option (List Node × List Token)
  | 0, _, _ => none
  | fuel + 1, first, tokens =>
      match tokens with
      | .flowSequenceEnd :: rest => some ([], rest)
      | _ => do
          match ← separator? first tokens with
          | .flowSequenceEnd :: rest => return ([], rest)
          | .key :: rest =>
              let (item, after) ← pair fuel rest
              let (items, last) ← flowItems fuel false after
              return (item :: items, last)
          | rest =>
              let (item, after) ← parse fuel false false rest
              let (items, last) ← flowItems fuel false after
              return (item :: items, last)

/-- The entries of a mapping in braces, and the closing brace. -/
def flowEntries : Nat → Bool → List Token → Option (List (Node × Node) × List Token)
  | 0, _, _ => none
  | fuel + 1, first, tokens =>
      match tokens with
      | .flowMappingEnd :: rest => some ([], rest)
      | _ => do
          match ← separator? first tokens with
          | .flowMappingEnd :: rest => return ([], rest)
          | .key :: rest =>
              let (key, afterKey) ← match rest with
                | .value :: _ | .flowEntry :: _ | .flowMappingEnd :: _ => some (emptyScalar, rest)
                | _ => parse fuel false false rest
              let (value, after) ← match afterKey with
                | .value :: .flowEntry :: rest => some (emptyScalar, .flowEntry :: rest)
                | .value :: .flowMappingEnd :: rest => some (emptyScalar, .flowMappingEnd :: rest)
                | .value :: rest => parse fuel false false rest
                | _ => some (emptyScalar, afterKey)
              let (entries, last) ← flowEntries fuel false after
              return ((key, value) :: entries, last)
          | rest =>
              let (key, after) ← parse fuel false false rest
              let (entries, last) ← flowEntries fuel false after
              return ((key, emptyScalar) :: entries, last)

end

/-- Nothing but end marks may follow the document. -/
def endOfDocument (node : Node) (rest : List Token) : Option Node :=
  if (rest.dropWhile (· == .documentEnd)).isEmpty then some node else none

/-- The only document of the tokens. -/
def ofTokens? (tokens : List Token) : Option Node :=
  let fuel := 2 * tokens.length + 2
  match tokens with
  | [] => some .nothing
  | .documentStart :: rest =>
      match rest with
      | [] | .documentEnd :: _ => endOfDocument emptyScalar rest
      | _ => (parse fuel true false rest).bind fun parsed => endOfDocument parsed.1 parsed.2
  | _ => (parse fuel true false tokens).bind fun parsed => endOfDocument parsed.1 parsed.2

def ofText? (text : String) : Option Node :=
  (tokens? text.toList).bind ofTokens?

end Node

end MessageQuery.Yaml
