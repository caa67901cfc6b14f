/-!
# `InodeStore.Bench.Tenths` — a floating-point number with one decimal

A float that is no infinity is a natural number times a power of two, so its tenths can be rounded
exactly: to the nearest, and of two equally near to the even one.

## Contents
- `roundHalfEven`, with `roundHalfEven_near` and `roundHalfEven_tie`: the result is at most half a unit
  away, and even if it is half a unit away.
- `Binary`, `Binary.ofFloat`, `Binary.tenths`.
- `oneDecimal`: the text.
-/

namespace InodeStore.Bench

/-- The quotient of two naturals, rounded to the nearest natural, a half to the even neighbour. -/
def roundHalfEven (num den : Nat) : Nat :=
  let q := num / den
  let r := num % den
  if 2 * r < den then q
  else if den < 2 * r then q + 1
  else if q % 2 = 0 then q
  else q + 1

/-- The rounded quotient is at most half a unit away from the exact one. -/
theorem roundHalfEven_near (num den : Nat) (h : 0 < den) :
    2 * num ≤ 2 * (roundHalfEven num den * den) + den ∧
      2 * (roundHalfEven num den * den) ≤ 2 * num + den := by
  have hdiv : num = den * (num / den) + num % den := (Nat.div_add_mod num den).symm
  have hr : num % den < den := Nat.mod_lt _ h
  have hq : (num / den + 1) * den = num / den * den + den := Nat.succ_mul _ _
  have hc : den * (num / den) = num / den * den := Nat.mul_comm _ _
  simp only [roundHalfEven]
  split
  · omega
  · split
    · omega
    · split <;> omega

/-- A quotient halfway between two naturals is rounded to the even one. -/
theorem roundHalfEven_tie (num den : Nat) (h : 2 * (num % den) = den) :
    roundHalfEven num den % 2 = 0 := by
  simp only [roundHalfEven]
  split
  · omega
  · split
    · omega
    · split <;> omega

/-- A natural number times a power of two. -/
structure Binary where
  significand : Nat
  exponent : Int
  deriving DecidableEq, Repr

namespace Binary

/-- The magnitude of a float that is no infinity. -/
def ofFloat (x : Float) : Binary :=
  let bits := x.toBits.toNat
  let field := (bits >>> 52) % 2048
  let fraction := bits % 4503599627370496
  if field = 0 then ⟨fraction, -1074⟩
  else ⟨4503599627370496 + fraction, Int.ofNat field - 1075⟩

/-- The number of tenths nearest to a number. -/
def tenths (x : Binary) : Nat :=
  roundHalfEven ((10 * x.significand) <<< x.exponent.toNat) (1 <<< (-x.exponent).toNat)

end Binary

/-- A float with one decimal; its sign is not shown. -/
def oneDecimal (x : Float) : String :=
  let t := (Binary.ofFloat x).tenths
  s!"{t / 10}.{t % 10}"

end InodeStore.Bench
