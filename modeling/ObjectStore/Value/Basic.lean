import ObjectStore.Identity
import ObjectStore.Calendar
import ObjectStore.Number.Floating
import ObjectStore.Number.Decimal

/-
  Stored and literal values.

  A value is null or one of fifteen concrete kinds. Null is a value, not the
  absence of one. The last kind wraps another value: it is what a property that
  accepts every type stores, so that the concrete kind is kept next to it.

    1. `ValueKind` is the exact kind of a value.
    2. `Family` groups kinds that compare with one another: the integer widths,
       and the two widths of floating point.
    3. `Value.any` wraps a value. Null stays null and nothing is wrapped twice.
    4. `Value.WellFormed` holds of the values that `Value.any` builds from
       unwrapped ones: a wrapper holds neither null nor another wrapper.
-/

namespace ObjectStore

open Number

/-- Twelve bytes, as one number from the first byte down. -/
structure ObjectId where
  bits : BitVec 96
  deriving DecidableEq, Repr, Inhabited

/-- Sixteen bytes, as one number from the first byte down. -/
structure Uuid where
  bits : BitVec 128
  deriving DecidableEq, Repr, Inhabited

/-- A stored or literal value. -/
inductive Value where
  | null
  | bool (b : Bool)
  | int8 (n : Int8)
  | int16 (n : Int16)
  | int32 (n : Int32)
  | int64 (n : Int64)
  | single (x : Single)
  | double (x : Double)
  | string (s : String)
  | bytes (bs : List UInt8)
  | timestamp (t : Timestamp)
  | decimal (d : Decimal)
  | objectId (id : ObjectId)
  | uuid (id : Uuid)
  | object (key : ObjectKey)
  | wrapped (v : Value)
  deriving DecidableEq, Inhabited

/-- The exact kind of a value. -/
inductive ValueKind where
  | null | bool | int8 | int16 | int32 | int64 | single | double | string | bytes
  | timestamp | decimal | objectId | uuid | object | any
  deriving DecidableEq, Repr, Inhabited

/-- The type of a value as far as comparison and storage care. -/
inductive Family where
  | bool | integer | float | decimal | string | binary | timestamp | objectId | uuid
  | object | any
  deriving DecidableEq, Repr, Inhabited

namespace Family

/-- The name of a family in messages. -/
def name : Family → String
  | .bool => "bool"
  | .integer => "int"
  | .float => "float"
  | .decimal => "decimal"
  | .string => "string"
  | .binary => "data"
  | .timestamp => "date"
  | .objectId => "objectId"
  | .uuid => "uuid"
  | .object => "object"
  | .any => "any"

/-- Families whose values can be asked for less and greater. -/
def isOrderable : Family → Bool
  | .bool | .binary | .object => false
  | _ => true

/-- Families with a least and a greatest value. -/
def supportsMinMax : Family → Bool
  | .integer | .float | .decimal | .timestamp | .any => true
  | _ => false

/-- Families with a sum and an average. -/
def supportsSum : Family → Bool
  | .integer | .float | .decimal => true
  | _ => false

/-- The place of a family among the families. -/
def rank : Family → Nat
  | .bool => 1
  | .integer => 2
  | .float => 3
  | .decimal => 4
  | .string => 5
  | .binary => 6
  | .timestamp => 7
  | .objectId => 8
  | .uuid => 9
  | .object => 10
  | .any => 11

/-- What a property of this family holds when nothing is given and null is not
allowed. -/
def defaultValue : Family → Value
  | .bool => .bool false
  | .integer => .int64 0
  | .float => .double .zero
  | .decimal => .decimal .zero
  | .string => .string ""
  | .binary => .bytes []
  | .timestamp => .timestamp .epoch
  | .objectId => .objectId ⟨0⟩
  | .uuid => .uuid ⟨0⟩
  | .object | .any => .null

end Family

namespace Value

def kind : Value → ValueKind
  | .null => .null
  | .bool _ => .bool
  | .int8 _ => .int8
  | .int16 _ => .int16
  | .int32 _ => .int32
  | .int64 _ => .int64
  | .single _ => .single
  | .double _ => .double
  | .string _ => .string
  | .bytes _ => .bytes
  | .timestamp _ => .timestamp
  | .decimal _ => .decimal
  | .objectId _ => .objectId
  | .uuid _ => .uuid
  | .object _ => .object
  | .wrapped _ => .any

def isNull : Value → Bool
  | .null => true
  | _ => false

/-- The value without its wrapper, if it has one. -/
def unwrap : Value → Value
  | .wrapped v => v
  | v => v

/-- The kind of the wrapped value, which a wrapper records. -/
def wrappedKind? : Value → Option ValueKind
  | .wrapped v => some v.kind
  | _ => none

/-- The value as a property that accepts every type stores it. -/
def any : Value → Value
  | .null => .null
  | .wrapped v => .wrapped v
  | v => .wrapped v

/-- A wrapper holds a concrete value: neither null nor another wrapper. -/
def WellFormed : Value → Prop
  | .wrapped .null => False
  | .wrapped (.wrapped _) => False
  | _ => True

/-- The family of the unwrapped value; null has none. -/
def family? (v : Value) : Option Family :=
  match v.unwrap with
  | .null => none
  | .bool _ => some .bool
  | .int8 _ | .int16 _ | .int32 _ | .int64 _ => some .integer
  | .single _ | .double _ => some .float
  | .string _ => some .string
  | .bytes _ => some .binary
  | .timestamp _ => some .timestamp
  | .decimal _ => some .decimal
  | .objectId _ => some .objectId
  | .uuid _ => some .uuid
  | .object _ => some .object
  | .wrapped _ => some .any

/-- The name of the family, or of null, in messages. -/
def typeName (v : Value) : String :=
  match v.family? with
  | none => "null"
  | some f => f.name

/-! ## The content of a value -/

def asInt (v : Value) : Option Int :=
  match v.unwrap with
  | .int8 n => some n.toInt
  | .int16 n => some n.toInt
  | .int32 n => some n.toInt
  | .int64 n => some n.toInt
  | _ => none

/-- The floating point number of either width, widened. -/
def asDouble (v : Value) : Option Double :=
  match v.unwrap with
  | .single x => some x.widen
  | .double x => some x
  | _ => none

def asDecimal (v : Value) : Option Decimal :=
  match v.unwrap with
  | .decimal d => some d
  | _ => none

def asString (v : Value) : Option String :=
  match v.unwrap with
  | .string s => some s
  | _ => none

def asBool (v : Value) : Option Bool :=
  match v.unwrap with
  | .bool b => some b
  | _ => none

/-- The object that the value links to. -/
def asObject (v : Value) : Option ObjectKey :=
  match v.unwrap with
  | .object k => some k
  | _ => none

end Value

end ObjectStore
