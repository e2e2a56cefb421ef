/-!
# Decimal and hexadecimal digits

Numbers written with a least number of digits, zeros in front.
-/

namespace LogRelay.Text

/-- `n` in decimal with at least `width` digits. -/
def zeroPadded (width n : Nat) : String :=
  let digits := Nat.toDigits 10 n
  String.ofList (List.replicate (width - digits.length) '0' ++ digits)

/-- `n` in lower-case hexadecimal with at least `width` digits. -/
def hex (width n : Nat) : String :=
  let digits := Nat.toDigits 16 n
  String.ofList (List.replicate (width - digits.length) '0' ++ digits)

/-- A decimal fraction of `width` digits without its trailing zeros, the point in front; nothing
for zero. -/
def fraction (width n : Nat) : String :=
  if n = 0 then "" else
    let digits := (zeroPadded width n).toList.reverse.dropWhile (· == '0')
    String.ofList ('.' :: digits.reverse)

end LogRelay.Text
