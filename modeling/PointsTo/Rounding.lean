namespace PointsTo

/-- The whole number nearest to `n / d`; of two equally near ones the even one. -/
def divNearest (n d : Nat) : Nat :=
  let q := n / d
  let twice := 2 * (n % d)
  if twice < d then q else if d < twice then q + 1 else q + q % 2

/-- The number with at most 53 significant binary digits that is nearest to `n`. -/
def roundBits (n : Nat) : Nat :=
  let surplus := Nat.log2 n + 1 - 53
  divNearest n (1 <<< surplus) <<< surplus

/-- A numerator and a power of two whose quotient is the number with 53 significant binary digits nearest
to `n / d`, for `0 < n` and `0 < d`. -/
def roundQuotient (n d : Nat) : Nat × Nat :=
  -- `n / d` lies between `2 ^ (log2 n - log2 d - 1)` and `2 ^ (log2 n - log2 d + 1)`
  let scale := 53 + Nat.log2 d - Nat.log2 n
  let divisor := d <<< (Nat.log2 n - (53 + Nat.log2 d))
  let whole := n <<< scale / divisor
  let surplus := if whole < 1 <<< 53 then 0 else 1
  let mantissa := divNearest (n <<< scale) (divisor <<< surplus)
  ((mantissa <<< surplus) * (divisor / d), 1 <<< scale)

end PointsTo
