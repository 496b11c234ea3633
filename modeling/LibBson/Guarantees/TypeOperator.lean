import LibBson.Guarantees.IntegerLiterals
import LibBson.Source.JsonWrappers

/-!
# The query operator `$type`

Where a value is stored, `{"$type": v}` is a document with the key `$type` unless a
`$binary` makes it a legacy binary. The decision is taken on what `sscanf` makes of
the string, so that a name such as "array" is taken for a subtype.
Source: bson-json.c:815-870, 1042-1076, 1165-1347.
-/

set_option autoImplicit false

namespace LibBson.Guarantees
open LibBson.Library LibBson.Source

/-- A value of `$type`: a string, or an object by the events behind its first one, with
whatever follows it. -/
inductive TypeValue where
  | string (val : Bytes)
  | object (rest : List JsonEvent)

namespace TypeValue

def events : TypeValue → List JsonEvent
  | string val => [.string val]
  | object rest => .startMap :: rest

/-- A string is UTF-8. -/
def Plain : TypeValue → Prop
  | string val => bsonUtf8Validate val true = true
  | object _ => True

end TypeValue

section TypeOperator

variable (fresh : JsonHeap) (dec : JsonDecoders)

variable {fresh dec}

section Kept

variable (fresh dec) {s : JsonReaderBson} (h : s.TakesValue) (herror : s.error = none)
  (hroom : s.depth + 1 < stackMax)

include h herror hroom

end Kept

end TypeOperator

end LibBson.Guarantees
