import ConnectorCatalog.Json.Printer
import ConnectorCatalog.Text.Quoted

/-!
# Mismatches

Why a JSON value does not have the form that is asked of it, and how that is said.
-/

namespace ConnectorCatalog

/-- A JSON value as a mismatch names it. -/
inductive Json.Found
  | null
  | bool (value : Bool)
  | number (value : Json.Number)
  | string (value : String)
  | sequence
  | map
deriving DecidableEq, Repr

/-- The way to name a value. -/
def Json.found : Json → Json.Found
  | .null => .null
  | .bool b => .bool b
  | .number n => .number n
  | .string s => .string s
  | .array _ => .sequence
  | .object _ => .map

/-- The words for a value. -/
def Json.Found.text : Json.Found → String
  | .null => "null"
  | .bool b => "boolean `" ++ (if b then "true" else "false") ++ "`"
  | .number (.integer n) => "integer `" ++ String.ofList (Json.writeInt n) ++ "`"
  | .number (.float x) => "floating point `" ++ String.ofList (Json.writeFloat x) ++ "`"
  | .string s => "string " ++ quoted s
  | .sequence => "sequence"
  | .map => "map"

/-- Why a JSON value does not have the form that is asked of it. -/
inductive Mismatch
  | invalidType (found : Json.Found) (expected : String)
  | invalidValue (found : Json.Found) (expected : String)
  | invalidLength (length : Nat) (expected : String)
  | missingField (name : String)
  | duplicateField (name : String)
  | unknownVariant (name expected : String)
  | other (text : String)
deriving DecidableEq, Repr

/-- The words for a mismatch. -/
def Mismatch.message : Mismatch → String
  | .invalidType found expected => "invalid type: " ++ found.text ++ ", expected " ++ expected
  | .invalidValue found expected => "invalid value: " ++ found.text ++ ", expected " ++ expected
  | .invalidLength length expected =>
    "invalid length " ++ String.ofList (Json.decimalDigits length) ++ ", expected " ++ expected
  | .missingField name => "missing field `" ++ name ++ "`"
  | .duplicateField name => "duplicate field `" ++ name ++ "`"
  | .unknownVariant name expected =>
    "unknown variant `" ++ name ++ "`, expected " ++ expected
  | .other text => text

end ConnectorCatalog
