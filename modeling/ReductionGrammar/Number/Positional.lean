import ReductionGrammar.Number.Shortest

/-!
# Positional notation

Numbers written without an exponent: all digits before the point, and after it as many as there
are, or a fixed number of them.
-/

namespace ReductionGrammar

/-- The digits of `n`, with zeros in front up to a given width. -/
def paddedDigits (width n : Nat) : List Char :=
  (Nat.toDigits 10 n).leftpad width '0'

def dropTrailingZeros (ds : List Char) : List Char :=
  (ds.reverse.dropWhile (· == '0')).reverse

namespace Decimal

/-- The decimal in positional notation, without zeros at the end of its fraction, and without a
point if nothing follows it. -/
def positional (d : Decimal) : List Char :=
  if 0 ≤ d.exponent then Nat.toDigits 10 (d.digits * Nat.pow 10 d.exponent.toNat)
  else
    let places := (-d.exponent).toNat
    let unit := Nat.pow 10 places
    let whole := Nat.toDigits 10 (d.digits / unit)
    let fraction := dropTrailingZeros (paddedDigits places (d.digits % unit))
    if fraction = [] then whole else whole ++ '.' :: fraction

end Decimal

namespace Binary64

/-- The text of a number: the shortest decimal that reads back as it, in positional notation. A
zero keeps its sign, and a NaN has none. -/
def text (x : Binary64) : String :=
  if x.isNaN then "NaN"
  else
    let unsigned := if x.isFinite then x.shortest.positional else ['i', 'n', 'f']
    String.ofList (if x.isNegative then '-' :: unsigned else unsigned)

/-- The magnitude of a finite number, rounded to a number of decimal places; a half goes to the
even neighbour. -/
def fixed (x : Binary64) (places : Nat) : String :=
  let r := x.magnitude
  let unit := Nat.pow 10 places
  let scaled := roundHalfEven (r.num * unit) r.den
  String.ofList (Nat.toDigits 10 (scaled / unit) ++ '.' :: paddedDigits places (scaled % unit))

end Binary64

end ReductionGrammar
