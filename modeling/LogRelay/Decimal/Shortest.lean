/-!
# Shortest decimals

The fewest digits that still tell a binary fraction from its neighbours. A double stands for all
the reals that round to it; of the decimals among them the shortest is taken, and of several that
short the one nearest to the double. All arithmetic is exact.
-/

namespace LogRelay.Decimal

/-- A positive decimal, `digits * 10 ^ exponent`. -/
structure Scaled where
  digits : Nat
  exponent : Int
deriving DecidableEq, Repr

/-- The reals that round to a double, over one denominator: its value and the ends, which belong to
the interval or do not. -/
structure Interval where
  low : Nat
  value : Nat
  high : Nat
  denominator : Nat
  closed : Bool

namespace Interval

/-- The interval of the positive double `m * 2 ^ q`. Below a power of two the neighbours are twice
as close. -/
def ofDouble (m : Nat) (q : Int) : Interval :=
  let below := if m = Nat.pow 2 52 && -1074 < q then 1 else 2
  let scale := Nat.pow 2 (q - 2).toNat
  { low := (4 * m - below) * scale
    value := 4 * m * scale
    high := (4 * m + 2) * scale
    denominator := Nat.pow 2 (2 - q).toNat
    closed := m % 2 = 0 }

/-- The same reals in units of `10 ^ k`. -/
def inUnits (i : Interval) (k : Int) : Interval :=
  let down := Nat.pow 10 (-k).toNat
  { i with
    low := i.low * down
    value := i.value * down
    high := i.high * down
    denominator := i.denominator * Nat.pow 10 k.toNat }

def contains (i : Interval) (n : Nat) : Bool :=
  let n := n * i.denominator
  if i.closed then i.low ≤ n && n ≤ i.high else i.low < n && n < i.high

/-- Of the two whole numbers next to the value, those in the interval, the nearer first; of two
equally near, the even one. -/
def wholes (i : Interval) : List Nat :=
  let n := i.value / i.denominator
  let twice := 2 * (i.value % i.denominator)
  let isLower := twice < i.denominator || twice = i.denominator && n % 2 = 0
  (if isLower then [n, n + 1] else [n + 1, n]).filter fun n => 0 < n && i.contains n

/-- The exponent of the first digit of the value. -/
def magnitude (i : Interval) : Int :=
  let whole := i.value / i.denominator
  if 0 < whole then ((toString whole).length : Int) - 1
  else
    let places := (toString (i.denominator / i.value)).length
    if i.denominator ≤ i.value * Nat.pow 10 (places - 1) then 1 - (places : Int) else -(places : Int)

end Interval

/-- Removes zeros at the end. -/
def Scaled.trim : Nat → Scaled → Scaled
  | 0, s => s
  | n + 1, s =>
    if s.digits ≠ 0 && s.digits % 10 = 0 then trim n ⟨s.digits / 10, s.exponent + 1⟩ else s

/-- The shortest decimal of the positive double `m * 2 ^ q`; seventeen digits are always enough. -/
def shortest (m : Nat) (q : Int) : Scaled :=
  let i := Interval.ofDouble m q
  let tries := (List.range 17).map fun (n : Nat) =>
    let k := i.magnitude - n
    ((i.inUnits k).wholes.head?).map fun d => Scaled.trim 17 ⟨d, k⟩
  (tries.findSome? id).getD ⟨0, 0⟩

/-- The significand and the exponent of a finite double without its sign. -/
def parts (x : Float) : Nat × Int :=
  let bits : Nat := x.toBits.toNat
  let fraction : Nat := bits % Nat.pow 2 52
  let exponent : Nat := bits / Nat.pow 2 52 % Nat.pow 2 11
  if exponent = 0 then (fraction, -1074) else (fraction + Nat.pow 2 52, (exponent : Int) - 1075)

def isNegative (x : Float) : Bool := x.toBits.toNat / Nat.pow 2 63 = 1

end LogRelay.Decimal
