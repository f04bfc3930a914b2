import ObjectStore.Number.Shortest

/-
  Binary floating point numbers of 32 and 64 bits, as their bits.

  A number is its bit pattern, so that equality is identity and every order is
  arithmetic on naturals and integers.

    1. `Double.compare?` is the numeric order: undefined at a NaN, and the two
       zeros are equal.
    2. `Double.totalCompare` is the total order of bit patterns: negative NaNs,
       negative numbers, the two zeros apart, positive numbers, positive NaNs.
    3. `Single.widen` is the 64-bit number of the same value.
    4. `text` is the shortest decimal that reads back, never with an exponent.
-/

namespace ObjectStore.Number

/-- A floating point number of 32 bits. -/
structure Single where
  bits : UInt32
  deriving DecidableEq, Repr, Inhabited

/-- A floating point number of 64 bits. -/
structure Double where
  bits : UInt64
  deriving DecidableEq, Repr, Inhabited

/-! ## Reading the bit fields -/

/-- The width of the stored fraction and of the exponent. -/
structure Layout where
  fraction : Nat
  exponent : Nat

def Layout.single : Layout := ⟨23, 8⟩

def Layout.double : Layout := ⟨52, 11⟩

/-- What a bit pattern stands for. -/
inductive Reading where
  | nan
  | infinite (negative : Bool)
  | zero (negative : Bool)
  | finite (negative : Bool) (size : Positive)

/-- The meaning of a bit pattern: sign, exponent and fraction from the top. An
exponent field of zero marks the numbers without a leading bit. -/
def Layout.read (l : Layout) (bits : Nat) : Reading :=
  let negative := bits / Nat.pow 2 (l.fraction + l.exponent) % 2 == 1
  let exponent := bits / Nat.pow 2 l.fraction % Nat.pow 2 l.exponent
  let fraction := bits % Nat.pow 2 l.fraction
  let bias : Int := Nat.pow 2 (l.exponent - 1) - 1 + l.fraction
  if exponent = Nat.pow 2 l.exponent - 1 then
    if fraction = 0 then .infinite negative else .nan
  else if exponent = 0 then
    if fraction = 0 then .zero negative
    else .finite negative ⟨fraction, 1 - bias, false⟩
  else
    .finite negative
      ⟨Nat.pow 2 l.fraction + fraction, exponent - bias, fraction == 0 && exponent != 1⟩

/-- The text of a number: the shortest decimal that reads back, the sign also
before a zero, and words for what is no number. -/
def Reading.text : Reading → String
  | .nan => "NaN"
  | .infinite negative => if negative then "-inf" else "inf"
  | .zero negative => if negative then "-0" else "0"
  | .finite negative size =>
    let body := size.shortest.positional
    if negative then "-" ++ body else body

/-- The text of a 32-bit number. -/
def Single.text (x : Single) : String := (Layout.single.read x.bits.toNat).text

/-- The text of a 64-bit number. -/
def Double.text (x : Double) : String := (Layout.double.read x.bits.toNat).text

/-! ## Widening -/

/-- The 64-bit pattern of a 32-bit pattern. Numbers keep their value, and a NaN
keeps its sign and payload and becomes quiet. -/
def widenBits (bits : Nat) : Nat :=
  let sign := bits / Nat.pow 2 31 * Nat.pow 2 63
  let exponent := bits / Nat.pow 2 23 % Nat.pow 2 8
  let fraction := bits % Nat.pow 2 23
  if exponent = 255 then
    if fraction = 0 then sign + 2047 * Nat.pow 2 52
    else sign + 2047 * Nat.pow 2 52 + (fraction ||| Nat.pow 2 22) * Nat.pow 2 29
  else if exponent = 0 then
    if fraction = 0 then sign
    else
      let top := Nat.log2 fraction
      sign + (top + 874) * Nat.pow 2 52 + (fraction - Nat.pow 2 top) * Nat.pow 2 (52 - top)
  else sign + (exponent + 896) * Nat.pow 2 52 + fraction * Nat.pow 2 29

/-- The 64-bit number of the same value. -/
def Single.widen (x : Single) : Double := ⟨UInt64.ofNat (widenBits x.bits.toNat)⟩

/-! ## Orders -/

def Double.magnitude (x : Double) : Nat := x.bits.toNat % Nat.pow 2 63

def Double.isNegative (x : Double) : Bool := Nat.pow 2 63 ≤ x.bits.toNat

def Double.isNaN (x : Double) : Bool := 2047 * Nat.pow 2 52 < x.magnitude

/-- An integer that grows with the value; both zeros have 0. -/
def Double.valueKey (x : Double) : Int :=
  if x.isNegative then -(x.magnitude : Int) else x.magnitude

/-- An integer that grows along the total order of bit patterns. -/
def Double.patternKey (x : Double) : Int :=
  if x.isNegative then -(x.magnitude : Int) - 1 else x.magnitude

/-- The numeric order, undefined when either side is no number. -/
def Double.compare? (x y : Double) : Option Ordering :=
  if x.isNaN || y.isNaN then none else some (compare x.valueKey y.valueKey)

/-- The total order of bit patterns. -/
def Double.totalCompare (x y : Double) : Ordering := compare x.patternKey y.patternKey

/-- Numeric equality: the zeros are equal and a NaN equals nothing. -/
def Double.numericEq (x y : Double) : Bool := x.compare? y == some .eq

def Single.numericEq (x y : Single) : Bool := x.widen.numericEq y.widen

/-! ## Arithmetic -/

def Double.zero : Double := ⟨0⟩

def Double.add (x y : Double) : Double := ⟨(Float.ofBits x.bits + Float.ofBits y.bits).toBits⟩

def Double.div (x y : Double) : Double := ⟨(Float.ofBits x.bits / Float.ofBits y.bits).toBits⟩

def Double.ofInt (i : Int) : Double := ⟨(Float.ofInt i).toBits⟩

end ObjectStore.Number
