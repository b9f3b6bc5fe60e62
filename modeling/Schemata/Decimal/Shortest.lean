import Schemata.Decimal.Binary64

/-!
The shortest decimal that reads back as a given double: on the grid of one significant digit, then of two, and so on, the
double's two neighbours are tried, and the first grid with a neighbour in the rounding interval wins.
-/

namespace Schemata.Decimal

/-- A positive decimal `digits * 10 ^ exponent`. -/
structure Scientific where
  digits : Nat
  exponent : Int
  deriving Repr, DecidableEq

/-- Whether `a / b < c / d`, or `≤` where ends are allowed. -/
def below (ends : Bool) (a b c d : Nat) : Bool :=
  if ends then a * d ≤ c * b else a * d < c * b

/-- `num / den` scaled by `10 ^ -exponent`, as a fraction. -/
def scaledByTen (num den : Nat) (exponent : Int) : Nat × Nat :=
  if 0 ≤ exponent then (num, den * tenTo exponent.toNat) else (num * tenTo (-exponent).toNat, den)

/-- The reals that round to the double `mantissa * 2 ^ exponent`: both ends as fractions over one denominator. -/
structure Interval where
  low : Nat
  value : Nat
  high : Nat
  den : Nat
  /-- Whether the ends themselves round to the double. -/
  ends : Bool

def Interval.of (mantissa : Nat) (exponent : Int) : Interval :=
  let (scale, den) := if 0 ≤ exponent then (twoTo exponent.toNat, 4) else (1, 4 * twoTo (-exponent).toNat)
  -- Below a power of two the doubles lie twice as close, except at the least exponent.
  let narrow := mantissa = twoTo 52 && Binary64.minExponent < exponent
  { low := (4 * mantissa - (if narrow then 1 else 2)) * scale
    value := 4 * mantissa * scale
    high := (4 * mantissa + 2) * scale
    den
    ends := mantissa % 2 = 0 }

/-- Whether the decimal `n * 10 ^ k` lies in the interval. -/
def Interval.holds (i : Interval) (n : Nat) (k : Int) : Bool :=
  let (a, b) := if 0 ≤ k then (n * tenTo k.toNat, 1) else (n, tenTo (-k).toNat)
  below i.ends i.low i.den a b && below i.ends a b i.high i.den

/-- The position of the leading digit of `num / den`. -/
def leadingPlace (num den : Nat) : Int :=
  let guess : Int := (Nat.toDigits 10 num).length - (Nat.toDigits 10 den).length
  -- The guess is right or one too high.
  let (n, d) := scaledByTen num den guess
  if d ≤ n then guess else guess - 1

/-- The neighbour on the grid `10 ^ k` that the interval holds, the nearer one if it holds both. -/
def Interval.neighbour? (i : Interval) (k : Int) : Option Scientific :=
  let (n, d) := scaledByTen i.value i.den k
  let down := n / d
  let rest := n % d
  -- Of two neighbours that are equally near, the even one is tried first.
  let nearer := if 2 * rest < d || (2 * rest = d && down % 2 = 0) then [down, down + 1] else [down + 1, down]
  (nearer.find? (i.holds · k)).map (⟨·, k⟩)

/-- Removes trailing zeros of the digits. -/
def Scientific.normalize (s : Scientific) : Nat → Scientific
  | 0 => s
  | fuel + 1 => if s.digits ≠ 0 && s.digits % 10 = 0 then normalize ⟨s.digits / 10, s.exponent + 1⟩ fuel else s

/-- The shortest decimal of the positive double `mantissa * 2 ^ exponent`. Seventeen digits always suffice. -/
def shortest (mantissa : Nat) (exponent : Int) : Scientific :=
  let i := Interval.of mantissa exponent
  let place := leadingPlace i.value i.den
  let grids := (List.range 17).map fun (n : Nat) => place - (n : Int)
  ((grids.findSome? i.neighbour?).getD ⟨0, 0⟩).normalize 20

/-- The text of a positive decimal: positional with at least one place where the point falls between five places left of
the digits and the sixteenth digit, else with an exponent, which has the sign `plus` if it is positive. -/
def Scientific.render (plus : String) (s : Scientific) : String :=
  let ds := Nat.toDigits 10 s.digits
  let point : Int := ds.length + s.exponent
  if 0 ≤ s.exponent && point ≤ 16 then
    String.ofList (ds ++ List.replicate s.exponent.toNat '0') ++ ".0"
  else if 0 < point && point ≤ 16 then
    String.ofList (ds.take point.toNat) ++ "." ++ String.ofList (ds.drop point.toNat)
  else if -5 < point && point ≤ 0 then
    "0." ++ String.ofList (List.replicate (-point).toNat '0' ++ ds)
  else
    let places := if ds.length = 1 then "" else "." ++ String.ofList ds.tail
    String.ofList (ds.take 1) ++ places ++ "e" ++ (if 0 < point then plus else "") ++ toString (point - 1)

/-- The text of a finite double. -/
def renderFinite (plus : String) (negative : Bool) (mantissa : Nat) (exponent : Int) : String :=
  (if negative then "-" else "") ++ (if mantissa = 0 then "0.0" else (shortest mantissa exponent).render plus)

end Schemata.Decimal
