import ObjectStore.Sorting
import ObjectStore.Value.Basic

/-
  Comparison of values.

  There are two. The exact comparison answers predicates: it is defined only
  within one family, never at null and never at a NaN. The canonical comparison
  is total: it orders sets and sorts rows.

    1. `Value.compareExact?` and `Value.exactEq`, where null equals only null.
    2. `Value.canonicalCompare`: null first, then by family, then exactly, floats
       by the total order of their patterns.
    3. `Value.same`: equality of the two values as data, kind and content, with
       the numeric equality of floats and decimals.
    4. `Value.sort`: the stable sort along the canonical comparison.
-/

namespace ObjectStore

open Number

namespace Value

/-- The order of two values of one family; undefined at null, at a NaN and
between families. -/
def compareExact? (x y : Value) : Option Ordering :=
  let a := x.unwrap
  let b := y.unwrap
  match a.family?, b.family? with
  | some f, some g =>
    if f ≠ g then none
    else
      match a, b with
      | .bool p, .bool q => some (compare p q)
      | .string s, .string t => some (compare s t)
      | .bytes s, .bytes t => some (compare s t)
      | .timestamp s, .timestamp t => some (s.compare t)
      | .decimal c, .decimal d => some (c.compare d)
      | .objectId i, .objectId j => some (compare i.bits.toNat j.bits.toNat)
      | .uuid i, .uuid j => some (compare i.bits.toNat j.bits.toNat)
      | .object k, .object l => some (compare k.val l.val)
      | a, b =>
        match a.asInt, b.asInt with
        | some i, some j => some (compare i j)
        | _, _ =>
          match a.asDouble, b.asDouble with
          | some u, some v => u.compare? v
          | _, _ => none
  | _, _ => none

/-- Equality with null equal to null alone. -/
def exactEq (x y : Value) : Bool :=
  match x.isNull, y.isNull with
  | true, true => true
  | false, false => x.compareExact? y == some .eq
  | _, _ => false

/-- The total order: null, then the families, within a family the exact order,
and floats by their patterns. -/
def canonicalCompare (x y : Value) : Ordering :=
  let a := x.unwrap
  let b := y.unwrap
  match a.family?, b.family? with
  | none, none => .eq
  | none, some _ => .lt
  | some _, none => .gt
  | some f, some g =>
    if f ≠ g then compare f.rank g.rank
    else if f = .float then
      match a.asDouble, b.asDouble with
      | some u, some v => u.totalCompare v
      | _, _ => .eq
    else (a.compareExact? b).getD .eq

/-- One kind and one content. -/
def same : Value → Value → Bool
  | .single x, .single y => x.numericEq y
  | .double x, .double y => x.numericEq y
  | .decimal c, .decimal d => c.compare d == .eq
  | .wrapped v, .wrapped w => v.same w
  | v, w => v == w

/-- Values in canonical order, equal ones in the order given. -/
def sort (vs : List Value) : List Value :=
  stableSort (fun a b => a.canonicalCompare b == .lt) vs

end Value

end ObjectStore
