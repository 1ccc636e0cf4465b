/-!
# Hexadecimal text

Addresses are written with capital digits and a fixed width of eight, sizes and
offsets with small digits and no more of them than needed. Both come from the
same digits; only the case and the padding differ.
-/

namespace PagedMemory.Text

/-- The digits of `n`, most significant first, in small letters. -/
def hexDigits (n : Nat) : List Char :=
  Nat.toDigits 16 n

/-- `0x` and at least `width` small digits. -/
def hexLower (width n : Nat) : String :=
  "0x" ++ String.ofList ((hexDigits n).leftpad width '0')

/-- `0x` and at least `width` capital digits. -/
def hexUpper (width n : Nat) : String :=
  "0x" ++ String.ofList (((hexDigits n).map Char.toUpper).leftpad width '0')

end PagedMemory.Text
