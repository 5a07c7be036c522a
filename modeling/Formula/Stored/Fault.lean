import Formula.Json.Basic
import Formula.Token

/-!
# Faults of stored formulas

Why a text is not the stored form of a value, a token or an expression: it is no JSON, or it is the
JSON of something else.
-/

namespace Formula.Stored

/-- What is wanted at some place of a text. -/
inductive Wanted where
  | token
  | expression
  | list
  | null
  deriving DecidableEq, Repr

def Wanted.describe : Wanted → String
  | token => "struct RawToken"
  | expression => "struct SerializedParseResult"
  | list => "a sequence"
  | null => "unit"

/-- What is found there instead. -/
inductive Found where
  | null
  | bool (b : Bool)
  | number (n : Json.Number)
  | text (s : String)
  | list
  | object
  deriving DecidableEq, Repr

def Found.describe : Found → String
  | null => "null"
  | bool b => "boolean `" ++ String.ofList (Json.writeBool b) ++ "`"
  | number (.whole n) => "integer `" ++ String.ofList (Json.Number.whole n).write ++ "`"
  | number (.real x) => "floating point `" ++ String.ofList (Json.writeReal x) ++ "`"
  | text s => "string " ++ Text.visible s
  | list => "sequence"
  | object => "map"

inductive Fault where
  | json (fault : Json.Fault)
  /-- The payload of a token does not belong to its kind. -/
  | wrongPayload (kind : Token.Kind) (found : Value.Kind)
  /-- There is an object in what should be a value. -/
  | notValue
  | missingField (name : String)
  | repeatedField (name : String)
  | unknownKind (word : String)
  /-- A list that stands for the fields of a record is too short. -/
  | tooShort (found expected : Nat) (wanted : Wanted)
  | wrongType (found : Found) (wanted : Wanted)
  deriving DecidableEq, Repr

/-- The number of fields of a record, in words. -/
def countFields (n : Nat) : String :=
  toString n ++ (if n = 1 then " element" else " elements")

namespace Fault

def message : Fault → String
  | json fault => fault.message
  | wrongPayload kind found =>
    "a " ++ kind.word ++ " token cannot carry a " ++ found.name ++ " value"
  | notValue => "data did not match any variant of untagged enum Value"
  | missingField name => "missing field `" ++ name ++ "`"
  | repeatedField name => "duplicate field `" ++ name ++ "`"
  | unknownKind word =>
    "unknown variant `" ++ word ++ "`, expected one of "
      ++ ", ".intercalate (Token.Kind.all.map fun k => "`" ++ k.word ++ "`")
  | tooShort found expected wanted =>
    "invalid length " ++ toString found ++ ", expected " ++ wanted.describe ++ " with "
      ++ countFields expected
  | wrongType found wanted => "invalid type: " ++ found.describe ++ ", expected " ++ wanted.describe

end Fault

end Formula.Stored
