/-!
# Rounding a quotient

`roundDiv n d` is the integer nearest to `n / d`, a half going to the even neighbour;
`roundHalfUp n d` sends a half to the larger neighbour. Each is within half a unit of the
quotient.
-/

namespace FormLetter.Number

/-- The nearest integer to `n / d`, ties to even. -/
def roundDiv (n d : Nat) : Nat :=
  let q := n / d
  let r := n % d
  if 2 * r < d then q
  else if d < 2 * r then q + 1
  else if q % 2 = 0 then q else q + 1

def roundHalfUp (n d : Nat) : Nat :=
  (2 * n + d) / (2 * d)

theorem roundDiv_mul_right {d : Nat} (q : Nat) (hd : 0 < d) : roundDiv (q * d) d = q := by
  simp [roundDiv, Nat.mul_div_cancel _ hd, Nat.mul_mod_left, hd]

/-- No integer is nearer to the quotient by more than the tie. -/
theorem roundDiv_near (n : Nat) {d : Nat} (hd : 0 < d) :
    2 * n ≤ (2 * roundDiv n d + 1) * d ∧ 2 * (roundDiv n d * d) ≤ 2 * n + d := by
  have hn : d * (n / d) + n % d = n := Nat.div_add_mod n d
  have hr := Nat.mod_lt n hd
  have e : (2 * (n / d) + 1) * d = 2 * (d * (n / d)) + d := by
    rw [Nat.add_mul, Nat.one_mul, Nat.mul_assoc, Nat.mul_comm (n / d)]
  have e' : (2 * (n / d + 1) + 1) * d = 2 * (d * (n / d)) + 3 * d := by
    rw [Nat.add_mul, Nat.mul_add, Nat.add_mul, Nat.mul_assoc 2 (n / d), Nat.mul_comm (n / d)]
    omega
  have e'' : (n / d + 1) * d = d * (n / d) + d := by
    rw [Nat.add_mul, Nat.one_mul, Nat.mul_comm (n / d)]
  have e''' : n / d * d = d * (n / d) := Nat.mul_comm _ _
  unfold roundDiv
  dsimp only
  split
  · rw [e, e''']; omega
  · split
    · rw [e', e'']; omega
    · split
      · rw [e, e''']; omega
      · rw [e', e'']; omega

end FormLetter.Number
