import MessageQuery.Schema.Document

/-!
# Engine options

Strict slice variables make a lookup fail when a variable used as a bound is no integer.
-/

namespace MessageQuery

open Document

structure Options where
  strictSliceVariables : Bool := false
deriving DecidableEq

namespace Options

def shape : Shape :=
  .record (.cons "strictSliceVariables" .flag (some (.flag false)) .nil) true

def ofDatum? : Datum → Option Options
  | .list [.flag strict] => some ⟨strict⟩
  | _ => none

def write (options : Options) : List Char :=
  Json.writeObject [("strictSliceVariables", Json.writeBool options.strictSliceVariables)]

def ofJson? : String → Except Json.Fault Options :=
  Json.load shape ofDatum?

def ofYaml? : String → Option Options :=
  Yaml.load? shape ofDatum?

end Options

end MessageQuery
