import ObjectStore.Value.Basic

/-
  The text of a value, as predicates and messages show it.

  Null is `nil`; a text stands in quotes with a backslash before each quote in
  it; bytes show only how many they are; a wrapper shows what it wraps.
-/

namespace ObjectStore

def ObjectId.text (id : ObjectId) : String :=
  String.ofList (Text.hexDigits 24 id.bits.toNat)

/-- Thirty-two hexadecimal digits in groups of eight, four, four, four and twelve. -/
def Uuid.text (id : Uuid) : String :=
  let cs := Text.hexDigits 32 id.bits.toNat
  let group (start count : Nat) := (cs.drop start).take count
  String.ofList (group 0 8 ++ '-' :: group 8 4 ++ '-' :: group 12 4 ++ '-' :: group 16 4
    ++ '-' :: group 20 12)

/-- A quote inside a quoted text gets a backslash. -/
def quoteMarks : List Char → List Char
  | [] => []
  | c :: cs => if c = '"' then '\\' :: '"' :: quoteMarks cs else c :: quoteMarks cs

def Value.text : Value → String
  | .null => "nil"
  | .bool b => if b then "true" else "false"
  | .int8 n => toString n.toInt
  | .int16 n => toString n.toInt
  | .int32 n => toString n.toInt
  | .int64 n => toString n.toInt
  | .single x => x.text
  | .double x => x.text
  | .string s => String.ofList ('"' :: quoteMarks s.toList ++ ['"'])
  | .bytes bs => s!"<bytes[{bs.length}]>"
  | .timestamp t => t.text
  | .decimal d => d.text
  | .objectId id => s!"oid({id.text})"
  | .uuid id => s!"uuid({id.text})"
  | .object k => k.text
  | .wrapped v => v.text

end ObjectStore
