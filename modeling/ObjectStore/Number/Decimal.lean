/-
  Decimal numbers with a coefficient of 96 bits.

  A decimal is an integer coefficient and a scale, the number of places after
  the point: `coefficient / 10 ^ scale`. Two decimals of one value may differ in
  scale; comparison is numeric, and the scale is kept and printed.

    1. `Decimal.add` is exact when the sum fits. Otherwise it gives up as few
       places as make it fit, rounding to the nearest, a tie to the even
       neighbour; it is undefined when giving up every place does not help.
    2. `Decimal.divide` divides by a count. The quotient is extended by blocks of
       at most nine digits until it is exact or no digit fits any more; then the
       rest is rounded, a tie to even, and blocks of zeros at the end are dropped.
-/

namespace ObjectStore.Number

/-- A coefficient of at most 96 bits over a power of ten of at most 28. -/
structure Decimal where
  coefficient : Int
  scale : Nat
  coefficient_lt : coefficient.natAbs < Nat.pow 2 96
  scale_le : scale ≤ 28
  deriving DecidableEq

namespace Decimal

/-- The decimal of a coefficient and a scale, if both are in range. -/
def ofParts? (coefficient : Int) (scale : Nat) : Option Decimal :=
  if h : coefficient.natAbs < Nat.pow 2 96 ∧ scale ≤ 28 then some ⟨coefficient, scale, h.1, h.2⟩
  else none

def zero : Decimal := ⟨0, 0, by decide, by decide⟩

instance : Inhabited Decimal := ⟨zero⟩

def compare (a b : Decimal) : Ordering :=
  Ord.compare (a.coefficient * Nat.pow 10 b.scale) (b.coefficient * Nat.pow 10 a.scale)

/-- The digits with the point before the last `scale` of them, at least one
digit standing before the point. -/
def text (d : Decimal) : String :=
  let cs := (toString d.coefficient.natAbs).toList
  let padded := List.replicate (d.scale + 1 - cs.length) '0' ++ cs
  let whole := padded.length - d.scale
  let body := if d.scale = 0 then cs else padded.take whole ++ '.' :: padded.drop whole
  String.ofList (if d.coefficient < 0 then '-' :: body else body)

/-! ## Sums -/

/-- The quotient nearest to `n / d`, a tie going to the even neighbour. -/
def roundEven (n d : Nat) : Nat :=
  let q := n / d
  let r := n % d
  if 2 * r < d then q
  else if 2 * r = d then q + q % 2
  else q + 1

/-- An integer with its last `k` decimal digits rounded away. -/
def dropPlaces (v : Int) (k : Nat) : Int :=
  let size := roundEven v.natAbs (Nat.pow 10 k)
  if v < 0 then -(size : Int) else size

/-- `v / 10 ^ (scale + dropped)` with `dropped` or, if that does not fit, a few
more places given up. -/
def fit (v : Int) (dropped : Nat) : Nat → Option Decimal
  | 0 => ofParts? (dropPlaces v dropped) 0
  | scale + 1 =>
    match ofParts? (dropPlaces v dropped) (scale + 1) with
    | some d => some d
    | none => fit v (dropped + 1) scale

/-- The sum. A zero gives way to the other side, its scale included. -/
def add (a b : Decimal) : Option Decimal :=
  if a.coefficient = 0 then some b
  else if b.coefficient = 0 then some a
  else
    let scale := max a.scale b.scale
    let left := a.coefficient * Nat.pow 10 (scale - a.scale)
    let right := b.coefficient * Nat.pow 10 (scale - b.scale)
    fit (left + right) 0 scale

/-! ## Quotients -/

/-- A division on the way: the digits so far, the places they have, and what is
left to divide. -/
structure Division where
  quotient : Nat
  scale : Nat
  rest : Nat

/-- The largest power of ten, of at most `most`, that a quotient of 96 bits can
take. -/
def room (quotient : Nat) : (most : Nat) → Nat
  | 0 => 0
  | most + 1 =>
    if quotient * Nat.pow 10 (most + 1) < Nat.pow 2 96 then most + 1 else room quotient most

/-- A quotient of more than 96 bits gives up its last place; `inexact` tells
whether something lies below that place. -/
def giveUpPlace (quotient : Nat) (inexact : Bool) : Nat :=
  let q := quotient / 10
  let r := quotient % 10
  if r > 5 ∨ (r = 5 ∧ (inexact ∨ q % 2 = 1)) then q + 1 else q

/-- The quotient rounded to its last place. -/
def settle (divisor : Nat) (p : Division) : Option Division :=
  let up := 2 * p.rest > divisor ∨ (2 * p.rest = divisor ∧ p.quotient % 2 = 1)
  if ¬ up then some p
  else if p.quotient + 1 < Nat.pow 2 96 then some { p with quotient := p.quotient + 1 }
  else
    match p.scale with
    | 0 => none
    | scale + 1 => some ⟨giveUpPlace (p.quotient + 1) true, scale, p.rest⟩

/-- The quotient extended block by block until it is exact or full. Each block
has at least one digit and no more than 28 places are ever reached, so the fuel
of 29 is never used up. -/
def extend (divisor : Nat) : Nat → Division → Option Division
  | 0, p => some p
  | fuel + 1, p =>
    if p.rest = 0 then some p
    else
      let digits := room p.quotient (min 9 (28 - p.scale))
      if digits = 0 then settle divisor p
      else
        let scaled := p.rest * Nat.pow 10 digits
        let next : Division :=
          ⟨p.quotient * Nat.pow 10 digits + scaled / divisor, p.scale + digits, scaled % divisor⟩
        if next.quotient < Nat.pow 2 96 then extend divisor fuel next
        else some ⟨giveUpPlace next.quotient (next.rest ≠ 0), next.scale - 1, next.rest⟩

/-- `digits` zeros at the end are dropped if there are as many, as many places
are left, and the coefficient is a multiple of `2 ^ bits`. -/
def dropZeros (digits bits : Nat) (p : Nat × Nat) : Nat × Nat :=
  if p.1 % Nat.pow 2 bits = 0 ∧ digits ≤ p.2 ∧ p.1 % Nat.pow 10 digits = 0 then
    (p.1 / Nat.pow 10 digits, p.2 - digits)
  else p

/-- The zeros at the end of an extended quotient: eight at a time while the low
32 bits are clear, then four, two and one. -/
def trimZeros (p : Nat × Nat) : Nat × Nat :=
  let p := dropZeros 8 32 (dropZeros 8 32 (dropZeros 8 32 p))
  dropZeros 1 1 (dropZeros 2 2 (dropZeros 4 4 p))

/-- The quotient by a positive count. A quotient that is exact at once keeps the
scale of the dividend. -/
def divide (d : Decimal) (count : Nat) : Option Decimal :=
  if d.coefficient = 0 then some zero
  else
    let size := d.coefficient.natAbs
    let start : Division := ⟨size / count, d.scale, size % count⟩
    match extend count 29 start with
    | none => none
    | some p =>
      let (quotient, scale) :=
        if start.rest = 0 then (p.quotient, p.scale) else trimZeros (p.quotient, p.scale)
      ofParts? (if d.coefficient < 0 then -(quotient : Int) else quotient) scale

end Decimal

end ObjectStore.Number
