/-
  Numbers in hexadecimal digits and in decimal digits of a fixed width.
-/

namespace ObjectStore.Text

/-- The hexadecimal digit of a number below 16, in lower case. -/
def hexDigit (n : Nat) : Char :=
  if n < 10 then Char.ofNat (n + 48) else Char.ofNat (n + 87)

/-- The last `width` hexadecimal digits of a number. -/
def hexDigits : (width : Nat) → Nat → List Char
  | 0, _ => []
  | width + 1, n => hexDigits width (n / 16) ++ [hexDigit (n % 16)]

/-- A number in decimal digits, filled up with zeros to a width. -/
def padded (width n : Nat) : String :=
  let cs := (toString n).toList
  String.ofList (List.replicate (width - cs.length) '0' ++ cs)

end ObjectStore.Text
