import ObjectStore.Inspection.CodedData
import ObjectStore.Text.Lowercase
import ObjectStore.Value.Text

/-
  Values as an inspection shows them: the kind, and the content in parentheses.

    1. `quotedText` shows a text in quotes so that every character can be told:
       quotes, backslashes and line ends by a backslash, what cannot be seen by
       its code.
    2. `floatText` shows a floating point number with a point or an exponent: with
       an exponent from 10 ^ 16 on and below 10 ^ -4.
    3. `Value.inspect` shows a value.
-/

namespace ObjectStore

open Number

namespace Inspection

/-- The hexadecimal digits of a number, without zeros in front. -/
def hexNumber (n : Nat) : List Char :=
  match (Text.hexDigits 6 n).dropWhile (· == '0') with
  | [] => ['0']
  | cs => cs

def quotedChar (c : Char) : List Char :=
  if c.toNat = 0 then ['\\', '0']
  else if c = '\t' then ['\\', 't']
  else if c = '\r' then ['\\', 'r']
  else if c = '\n' then ['\\', 'n']
  else if c = '\\' ∨ c = '"' then ['\\', c]
  else if Text.inRanges codedRanges c.toNat then
    ['\\', 'u', '\x7b'] ++ hexNumber c.toNat ++ ['\x7d']
  else [c]

/-- A text in quotes. -/
def quotedText (s : String) : String :=
  String.ofList ('"' :: s.toList.flatMap quotedChar ++ ['"'])

/-- Digits with one digit before the point and an exponent. -/
def scientific (d : Digits) : String :=
  let cs := (toString d.digits).toList
  let exponent := d.exponent + (cs.length - 1 : Nat)
  let mantissa := if cs.length ≤ 1 then cs else cs.take 1 ++ '.' :: cs.drop 1
  String.ofList mantissa ++ "e" ++ toString exponent

/-- Digits with a point, also behind a whole number. -/
def withPoint (d : Digits) : String :=
  if d.exponent ≥ 0 then d.positional ++ ".0" else d.positional

/-- Digits with an exponent if the number is very large or very small. -/
def digitsText (d : Digits) : String :=
  let top := d.exponent + (toString d.digits).length
  if top > 16 ∨ top < -3 then scientific d else withPoint d

/-- A floating point number. -/
def floatText : Reading → String
  | .nan => "NaN"
  | .infinite negative => if negative then "-inf" else "inf"
  | .zero negative => if negative then "-0.0" else "0.0"
  | .finite negative size =>
    let body := digitsText size.shortest
    if negative then "-" ++ body else body

def listText (xs : List String) : String := "[" ++ ", ".intercalate xs ++ "]"

/-- A name with a content in parentheses. -/
def tagged (name content : String) : String := name ++ "(" ++ content ++ ")"

/-- A name with its fields in curly brackets; `hasMore` tells that not all are shown. -/
def record (name : String) (fields : List (String × String)) (hasMore : Bool) : String :=
  let shown := fields.map fun (field, content) => field ++ ": " ++ content
  let all := if hasMore then shown ++ [".."] else shown
  name ++ " \x7b " ++ ", ".intercalate all ++ " \x7d"

def objectKey (k : ObjectKey) : String := tagged "ObjectKey" (toString k.val)

/-- The bytes of a number from the first one down. -/
def bytesOf : (count : Nat) → Nat → List Nat
  | 0, _ => []
  | count + 1, n => bytesOf count (n / 256) ++ [n % 256]

def byteList (bs : List Nat) : String := listText (bs.map toString)

end Inspection

open Inspection

def ValueKind.name : ValueKind → String
  | .null => "Null"
  | .bool => "Bool"
  | .int8 => "Int8"
  | .int16 => "Int16"
  | .int32 => "Int32"
  | .int64 => "Int64"
  | .single => "Float"
  | .double => "Double"
  | .string => "String"
  | .bytes => "Bytes"
  | .timestamp => "Timestamp"
  | .decimal => "Decimal"
  | .objectId => "ObjectId"
  | .uuid => "Uuid"
  | .object => "Object"
  | .any => "Any"

/-- An instant with the mark of offset zero. -/
def Timestamp.inspect (t : Timestamp) : String :=
  String.ofList (t.text.toList.take (t.text.length - 6)) ++ "Z"

/-- The content of a value; null has none. -/
def Value.inspect (v : Value) : String :=
  let named (content : String) : String := tagged v.kind.name content
  match v with
  | .null => ValueKind.null.name
  | .single x => named (floatText (Layout.single.read x.bits.toNat))
  | .double x => named (floatText (Layout.double.read x.bits.toNat))
  | .string s => named (quotedText s)
  | .bytes bs => named (byteList (bs.map (·.toNat)))
  | .timestamp t => named t.inspect
  | .objectId id => named (tagged "ObjectId" (byteList (bytesOf 12 id.bits.toNat)))
  | .uuid id => named id.text
  | .object k => named (objectKey k)
  | .wrapped w => named (record "AnyValue" [("kind", w.kind.name), ("value", w.inspect)] false)
  | .bool _ | .int8 _ | .int16 _ | .int32 _ | .int64 _ | .decimal _ => named v.text

end ObjectStore
