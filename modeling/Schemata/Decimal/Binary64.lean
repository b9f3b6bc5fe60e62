/-!
Double precision numbers as exact integers: a finite number is a mantissa times a power of two. Every operation rounds its
exact rational result to the nearest double, a tie going to the even mantissa.
-/

namespace Schemata.Decimal

inductive Binary64
  /-- The number `± mantissa * 2 ^ exponent`. -/
  | finite (negative : Bool) (mantissa : Nat) (exponent : Int)
  | infinite (negative : Bool)
  | nan
  deriving Repr, DecidableEq, Inhabited

def twoTo (n : Nat) : Nat := Nat.pow 2 n

def tenTo (n : Nat) : Nat := Nat.pow 10 n

/-- `num / den` scaled by `2 ^ -exponent`, as a fraction. -/
def scaled (num den : Nat) (exponent : Int) : Nat × Nat :=
  if 0 ≤ exponent then (num, den * twoTo exponent.toNat) else (num * twoTo (-exponent).toNat, den)

/-- The nearest whole number to `num / den`, a tie going to the even one. -/
def divideToEven (num den : Nat) : Nat :=
  let q := num / den
  let r := num % den
  if 2 * r < den || (2 * r = den && q % 2 = 0) then q else q + 1

namespace Binary64

/-- The least exponent of a double. -/
def minExponent : Int := -1074

/-- The greatest exponent of a double. -/
def maxExponent : Int := 971

/-- The exponent that gives `num / den` a mantissa of 53 bits, where the range allows it. -/
def exponentFor (num den : Nat) : Int :=
  let guess : Int := num.log2 - den.log2 - 53
  let (n, d) := scaled num den guess
  let exponent := if n < d * twoTo 53 then guess else guess + 1
  max exponent minExponent

/-- The double nearest to `± num / den`. -/
def ofRatio (negative : Bool) (num den : Nat) : Binary64 :=
  if num = 0 then finite negative 0 minExponent
  else
    let exponent := exponentFor num den
    let (n, d) := scaled num den exponent
    let mantissa := divideToEven n d
    let (mantissa, exponent) := if mantissa = twoTo 53 then (twoTo 52, exponent + 1) else (mantissa, exponent)
    if maxExponent < exponent then infinite negative else finite negative mantissa exponent

def zero (negative : Bool) : Binary64 :=
  finite negative 0 minExponent

def isFinite : Binary64 → Bool
  | finite .. => true
  | _ => false

/-- Number equality: both zeros are equal, and so are not-a-numbers. -/
def same : Binary64 → Binary64 → Bool
  | finite s m e, finite t n f => (m = 0 && n = 0) || (s == t && m == n && e == f)
  | infinite s, infinite t => s == t
  | nan, nan => true
  | _, _ => false

/-- The magnitude of a finite number as a fraction. -/
def ratio (mantissa : Nat) (exponent : Int) : Nat × Nat :=
  if 0 ≤ exponent then (mantissa * twoTo exponent.toNat, 1) else (mantissa, twoTo (-exponent).toNat)

/-- The double nearest to the decimal `± digits * 10 ^ exponent`. Magnitudes far out of range are settled by their number
of digits. -/
def ofDecimal (negative : Bool) (digits : Nat) (exponent : Int) : Binary64 :=
  let places : Int := (Nat.toDigits 10 digits).length + exponent
  if digits = 0 || places < -400 then zero negative
  else if 400 < places then infinite negative
  else if 0 ≤ exponent then ofRatio negative (digits * tenTo exponent.toNat) 1
  else ofRatio negative digits (tenTo (-exponent).toNat)

/-- The product, rounded once. -/
def mul : Binary64 → Binary64 → Binary64
  | finite s m e, finite t n f =>
    let (num, den) := ratio (m * n) (e + f)
    ofRatio (s != t) num den
  | _, _ => nan

/-- The quotient of finite numbers, rounded once. -/
def div : Binary64 → Binary64 → Binary64
  | finite s m e, finite t n f =>
    let (num, den) := ratio m e
    let (num', den') := ratio n f
    ofRatio (s != t) (num * den') (den * num')
  | _, _ => nan

def ofNat (n : Nat) : Binary64 :=
  ofRatio false n 1

/-- A power of ten as a double. -/
def powerOfTen (k : Nat) : Binary64 :=
  ofNat (tenTo k)

def negate : Binary64 → Binary64
  | finite s m e => finite (!s) m e
  | infinite s => infinite (!s)
  | nan => nan

/-- Divides by `10 ^ k`, in steps of `10 ^ 308` where `k` is greater. Few steps reach zero. -/
def shrink : Nat → Binary64 → Nat → Binary64
  | 0, _, _ => zero false
  | steps + 1, x, k => if k ≤ 308 then x.div (powerOfTen k) else shrink steps (x.div (powerOfTen 308)) (k - 308)

/-- A number scaled by a power of ten after it was rounded to a double: rounding happens twice. Nothing beyond the
range is given. -/
def scaleByTen (significand : Nat) (exponent : Int) : Option Binary64 :=
  let x := ofNat significand
  if 0 ≤ exponent then
    if significand = 0 then some x
    else if 308 < exponent then none
    else
      let y := x.mul (powerOfTen exponent.toNat)
      if y.isFinite then some y else none
  else if significand = 0 then some x
  else some (shrink 8 x (-exponent).toNat)

end Binary64

end Schemata.Decimal
