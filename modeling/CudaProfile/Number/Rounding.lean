/-!
# Rounding to significant bits

The number nearest to a fraction among those with a given number of significant
bits, where a tie goes to the even neighbour. Exponents are not limited.
-/

namespace CudaProfile
namespace Number

/-- The number `mantissa * 2 ^ exponent`. -/
structure Scaled where
  mantissa : Nat
  exponent : Int
deriving DecidableEq

def Scaled.toRat (s : Scaled) : Rat :=
  if s.exponent < 0 then mkRat s.mantissa (Nat.pow 2 (-s.exponent).toNat)
  else mkRat (s.mantissa * Nat.pow 2 s.exponent.toNat) 1

/-- The whole number nearest to a quotient; a tie goes to the even one. -/
def divToEven (num den : Nat) : Nat :=
  let quotient := num / den
  let rest := num % den
  if 2 * rest < den then quotient
  else if den < 2 * rest then quotient + 1
  else if quotient % 2 = 0 then quotient
  else quotient + 1

/-- The whole number nearest to a quotient; a tie goes to the greater one. -/
def divAway (num den : Nat) : Nat :=
  (2 * num + den) / (2 * den)

def scaleDown (num den : Nat) (exponent : Int) : Nat × Nat :=
  if exponent < 0 then (num * Nat.pow 2 (-exponent).toNat, den)
  else (num, den * Nat.pow 2 exponent.toNat)

def nearest (bits num den : Nat) : Scaled :=
  if num = 0 then ⟨0, 0⟩
  else
    let guess : Int := (num.log2 : Int) - den.log2 - bits + 1
    let (n, d) := scaleDown num den guess
    let exponent := if n < d * Nat.pow 2 (bits - 1) then guess - 1 else guess
    let (n, d) := scaleDown num den exponent
    ⟨divToEven n d, exponent⟩

def roundToBits (bits : Nat) (q : Rat) : Rat :=
  let magnitude := (nearest bits q.num.natAbs q.den).toRat
  if q < 0 then -magnitude else magnitude

end Number
end CudaProfile
