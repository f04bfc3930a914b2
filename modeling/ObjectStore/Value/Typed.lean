import ObjectStore.Error
import ObjectStore.Value.Basic

/-
  Reading a value as a type.

  A value is read as a type of its own family only; there is no conversion
  between families. Reading as an optional type turns null into nothing.
-/

namespace ObjectStore

open Number

namespace Value

/-- The content, or a mismatch that names the type asked for. -/
def expect {α : Type} (v : Value) (expected : String) (content : Option α) : Except Error α :=
  match content with
  | some a => .ok a
  | none => .error (.typeMismatch expected v.typeName)

def toInt (v : Value) : Except Error Int := v.expect "int" v.asInt

/-- The value as a floating point number. -/
def toDouble (v : Value) : Except Error Double := v.expect "double" v.asDouble

def toBool (v : Value) : Except Error Bool := v.expect "bool" v.asBool

def toText (v : Value) : Except Error String := v.expect "string" v.asString

def toDecimal (v : Value) : Except Error Decimal := v.expect "decimal" v.asDecimal

def toObject (v : Value) : Except Error ObjectKey := v.expect "object" v.asObject

/-- The value as an optional type: null is nothing. -/
def toOptional {α : Type} (read : Value → Except Error α) (v : Value) : Except Error (Option α) :=
  if v.isNull then .ok none else (read v).map some

end Value

end ObjectStore
