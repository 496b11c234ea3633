import LibBson.Spec.Builds
import LibBson.Source.Writer

/-!
# What has been written

A writer seen from outside: the documents that were ended, and of the one being
written the elements of its innermost open document and, for each document
around that, the octets in front of the child.
-/

set_option autoImplicit false

namespace LibBson.Spec
open LibBson.Library LibBson.Source

/-- A document with open children. -/
structure Partial where
  body : Bytes
  around : List Bytes

/-- Type and key of a child. -/
def childHeader (type : BsonType) (key : Bytes) (keyLength : Int) : Bytes :=
  type.toByte :: (copied key (keySize key keyLength) ++ [0])

/-- A successful call on the innermost document. -/
def Partial.add (p : Partial) : Step → Partial
  | .append call =>
    match stepArgs (.append call) with
    | some args => { p with body := p.body ++ args.bytes }
    | none => p
  | .documentBegin key keyLength =>
    { body := [], around := (p.body ++ childHeader .document key keyLength) :: p.around }
  | .arrayBegin key keyLength =>
    { body := [], around := (p.body ++ childHeader .array key keyLength) :: p.around }
  | .end =>
    match p.around with
    | [] => p
    | pre :: around => { body := pre ++ frame p.body, around := around }

structure Written where
  ended : List Bytes
  current : Option Partial

def Written.nothing : Written := { ended := [], current := none }

/-- What one call and its result add. -/
def Written.add (a : Written) : WriterOp → Bool → Written
  | .begin _, true => { a with current := some { body := [], around := [] } }
  | .append s _, true => { a with current := a.current.map fun p => p.add s }
  | .end, true =>
    match a.current with
    | none => a
    | some p => { ended := a.ended ++ [frame p.body], current := none }
  | .rollback, true => { a with current := none }
  | _, false => a

def Written.after (a : Written) : List WriterOp → List Bool → Written
  | op :: ops, ret :: rets => (a.add op ret).after ops rets
  | _, _ => a

end LibBson.Spec
