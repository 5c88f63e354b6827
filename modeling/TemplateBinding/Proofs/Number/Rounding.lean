import TemplateBinding.Number.Shortest

/-! Reading decimals. Decimals of one value are read as one number, and every finite number
is what its shortest decimal is read as. -/
namespace TemplateBinding

theorem twoTo_pos (n : Nat) : 0 < twoTo n := Nat.pow_pos (by decide)

theorem tenTo_succ (n : Nat) : tenTo (n + 1) = tenTo n * 10 := rfl

theorem twoTo_succ (n : Nat) : twoTo (n + 1) = twoTo n * 2 := rfl

theorem tenTo_add (m n : Nat) : tenTo (m + n) = tenTo m * tenTo n := Nat.pow_add ..

theorem twoTo_add (m n : Nat) : twoTo (m + n) = twoTo m * twoTo n := Nat.pow_add ..

theorem le_log2_of_twoTo_le {k n : Nat} (le : twoTo k ≤ n) : k ≤ n.log2 := by
  have pos := twoTo_pos k
  exact (Nat.le_log2 (by omega)).2 le

theorem lt_twoTo_log2_succ (n : Nat) : n < twoTo (n.log2 + 1) := Nat.lt_log2_self

theorem twoTo_le_tenTo (n : Nat) : twoTo n ≤ tenTo n := Nat.pow_le_pow_left (by decide) n

namespace Binary64

theorem roundDiv_mul (n d : Nat) {k : Nat} (pos : 0 < k) :
    roundDiv (n * k) (d * k) = roundDiv n d := by
  have scale (a b : Nat) : a * k < b * k ↔ a < b := Nat.mul_lt_mul_right pos
  have double : 2 * (n % d * k) = 2 * (n % d) * k := by rw [Nat.mul_assoc]
  simp only [roundDiv, Nat.mul_div_mul_right n d pos, Nat.mul_mod_mul_right, double, scale]

theorem nearestRank_mul (n d : Nat) {k : Nat} (pos : 0 < k) :
    nearestRank (n * k) (d * k) = nearestRank n d := by
  have numerator : n * k * twoTo 1074 = n * twoTo 1074 * k := Nat.mul_right_comm ..
  have denominator (s : Nat) : d * k * twoTo s = d * twoTo s * k := Nat.mul_right_comm ..
  simp only [nearestRank, numerator, denominator, Nat.mul_div_mul_right _ d pos,
    roundDiv_mul _ _ pos]

theorem nearestRank_large {n : Nat} (large : twoTo 1025 ≤ n) : nearestRank n 1 = infinityRank := by
  have product : twoTo 2099 ≤ n * twoTo 1074 := by
    rw [show 2099 = 1025 + 1074 from rfl, twoTo_add]
    exact Nat.mul_le_mul_right _ large
  have bits : 2099 ≤ (n * twoTo 1074 / 1).log2 := by
    rw [Nat.div_one]
    exact le_log2_of_twoTo_le product
  have shift : 2047 * twoTo 52 ≤ ((n * twoTo 1074 / 1).log2 - 52) * twoTo 52 :=
    Nat.mul_le_mul_right _ (by omega)
  exact Nat.min_eq_left (Nat.le_trans shift (Nat.le_add_right _ _))

theorem nearestRank_small {n d : Nat} (small : 2 * (n * twoTo 1074) < d) : nearestRank n d = 0 := by
  have less : n * twoTo 1074 < d := by omega
  have none : n * twoTo 1074 / d = 0 := Nat.div_eq_of_lt less
  have whole : d * twoTo 0 = d := Nat.mul_one d
  have round : roundDiv (n * twoTo 1074) d = 0 := by
    unfold roundDiv
    simp only [none, Nat.mod_eq_of_lt less, small, if_true]
  have bits : Nat.log2 0 - 52 = 0 := by decide
  simp only [nearestRank, none, bits, whole, round, Nat.zero_mul, Nat.zero_add, Nat.min_zero]

theorem double_mul_twoTo_lt (m k : Nat) : 2 * (m * twoTo k) < twoTo (m.log2 + 1 + k + 1) := by
  have product := Nat.mul_lt_mul_of_pos_right (lt_twoTo_log2_succ m) (twoTo_pos k)
  rw [← twoTo_add] at product
  rw [twoTo_succ, Nat.mul_comm 2]
  exact Nat.mul_lt_mul_of_pos_right product (by decide)

theorem nearestRank_underflow {m k : Nat} (low : 400 + m.log2 < k) :
    nearestRank m (tenTo k) = 0 := by
  apply nearestRank_small
  have head : twoTo 1076 ≤ tenTo 401 := by decide +kernel
  calc 2 * (m * twoTo 1074) < twoTo (m.log2 + 1 + 1074 + 1) := double_mul_twoTo_lt m 1074
    _ = twoTo 1076 * twoTo m.log2 := by rw [← twoTo_add, show _ + _ = _ from Nat.add_comm 1076 _]
    _ ≤ tenTo 401 * tenTo m.log2 := Nat.mul_le_mul head (twoTo_le_tenTo _)
    _ = tenTo (401 + m.log2) := (tenTo_add 401 m.log2).symm
    _ ≤ tenTo k := Nat.pow_le_pow_right (by decide) (by omega)

theorem nearestRank_tenTo_succ (m k : Nat) :
    nearestRank (m * 10) (tenTo (k + 1)) = nearestRank m (tenTo k) :=
  nearestRank_mul m (tenTo k) (by decide)

theorem decimalRank_shift (m : Nat) (e : Int) :
    decimalRank ⟨m * 10, e⟩ = decimalRank ⟨m, e + 1⟩ := by
  by_cases none : m = 0
  · simp [none, decimalRank]
  have some : m * 10 ≠ 0 := by omega
  have bits : m.log2 + 3 ≤ (m * 10).log2 := by
    have head : twoTo m.log2 ≤ m := Nat.log2_self_le none
    apply le_log2_of_twoTo_le
    rw [twoTo_succ, twoTo_succ, twoTo_succ]
    omega
  simp only [decimalRank, none, some, if_false]
  by_cases huge : 400 < e
  · rw [if_pos huge, if_pos (by omega)]
  rw [if_neg huge]
  by_cases edge : 400 < e + 1
  · have head : twoTo 1025 ≤ tenTo 400 := by decide +kernel
    have power : tenTo 400 = tenTo e.toNat := congrArg tenTo (by omega)
    have large : twoTo 1025 ≤ m * 10 * tenTo e.toNat := by
      rw [← power]
      exact Nat.le_trans head (Nat.le_mul_of_pos_left _ (by omega))
    rw [if_neg (by omega), if_pos (by omega), if_pos edge, nearestRank_large large]
  rw [if_neg edge]
  by_cases tiny : e < -(400 + (m * 10).log2 : Nat)
  · rw [if_pos tiny, if_pos (by omega)]
  rw [if_neg tiny]
  by_cases whole : 0 ≤ e
  · have power : (e + 1).toNat = e.toNat + 1 := by omega
    rw [if_pos whole, if_neg (by omega), if_pos (by omega), power, tenTo_succ,
      Nat.mul_comm (tenTo _), Nat.mul_assoc]
  have power : (-e).toNat = (-(e + 1)).toNat + 1 := by omega
  rw [if_neg whole, power, nearestRank_tenTo_succ]
  by_cases low : e + 1 < -(400 + m.log2 : Nat)
  · rw [if_pos low, nearestRank_underflow (by omega)]
  rw [if_neg low]
  by_cases last : 0 ≤ e + 1
  · have zero : e + 1 = 0 := by omega
    rw [if_pos last, zero]
    exact congrArg (nearestRank · 1) (Nat.mul_one m).symm
  · rw [if_neg last]

theorem decimalRank_shiftAll (m k : Nat) (e : Int) :
    decimalRank ⟨m * tenTo k, e⟩ = decimalRank ⟨m, e + k⟩ := by
  induction k generalizing e with
  | zero => simp [tenTo]
  | succ k ih =>
    rw [tenTo_succ, ← Nat.mul_assoc, decimalRank_shift, ih]
    congr 2
    omega

theorem decimalRank_stripped (d : Decimal) : decimalRank d.stripped = decimalRank d := by
  fun_induction Decimal.stripped d with
  | case1 d zero ih =>
    have whole : d.digits / 10 * 10 = d.digits := by omega
    rw [ih, ← decimalRank_shift, whole]
  | case2 => rfl

theorem roundDiv_one (n : Nat) : roundDiv n 1 = n := by
  simp [roundDiv, Nat.mod_one]

theorem log2_eq {k n : Nat} (low : twoTo k ≤ n) (high : n < twoTo (k + 1)) : n.log2 = k := by
  have pos := twoTo_pos k
  exact (Nat.log2_eq_iff (by omega)).2 ⟨low, high⟩

theorem nearestRank_twoTo (n shift : Nat) (bits : n.log2 - 52 = shift) :
    nearestRank n (twoTo 1074) =
      min infinityRank (shift * twoTo 52 + roundDiv n (twoTo shift)) := by
  simp only [nearestRank, Nat.mul_div_cancel n (twoTo_pos 1074), bits,
    Nat.mul_comm (twoTo 1074), roundDiv_mul n _ (twoTo_pos 1074)]

theorem nearestRank_units {rank : Nat} (finite : rank < infinityRank) :
    nearestRank (units rank) (twoTo 1074) = rank := by
  by_cases low : rank < twoTo 52
  · have value : units rank = rank := if_pos low
    have bits : rank.log2 - 52 = 0 := by
      by_cases zero : rank = 0
      · subst zero
        decide
      · have power := (Nat.log2_lt zero).2 low
        omega
    rw [value, nearestRank_twoTo rank 0 bits, show twoTo 0 = 1 from rfl, roundDiv_one]
    omega
  · have place := Nat.div_add_mod rank (twoTo 52)
    have fraction := Nat.mod_lt rank (twoTo_pos 52)
    have value : units rank = (twoTo 52 + rank % twoTo 52) * twoTo (rank / twoTo 52 - 1) :=
      if_neg low
    have some : 0 < rank / twoTo 52 := Nat.div_pos (Nat.le_of_not_lt low) (twoTo_pos 52)
    obtain ⟨shift, binade⟩ : ∃ shift, rank / twoTo 52 = shift + 1 :=
      ⟨rank / twoTo 52 - 1, by omega⟩
    rw [binade, Nat.add_sub_cancel] at value
    have pos := twoTo_pos shift
    have bits : (units rank).log2 = 52 + shift := by
      rw [value]
      apply log2_eq
      · rw [twoTo_add]
        exact Nat.mul_le_mul_right _ (Nat.le_add_right _ _)
      · rw [show 52 + shift + 1 = 53 + shift by omega, twoTo_add 53]
        have double : twoTo 53 = twoTo 52 + twoTo 52 := by decide
        exact Nat.mul_lt_mul_of_pos_right (by omega) pos
    have whole := roundDiv_mul (twoTo 52 + rank % twoTo 52) 1 pos
    rw [Nat.one_mul, roundDiv_one] at whole
    rw [binade, Nat.mul_comm, Nat.succ_mul, Nat.add_assoc] at place
    rw [nearestRank_twoTo (units rank) shift (by omega), value, whole, place]
    exact Nat.min_eq_right (Nat.le_of_lt finite)

theorem units_pos {rank : Nat} (some : rank ≠ 0) : 0 < units rank := by
  unfold units
  split
  · omega
  · exact Nat.mul_pos (Nat.add_pos_left (twoTo_pos 52) _) (twoTo_pos _)

theorem decimalRank_exactDecimal {rank : Nat} (some : rank ≠ 0) (finite : rank < infinityRank) :
    decimalRank (exactDecimal rank) = rank := by
  have power : tenTo 1074 = twoTo 1074 * (tenTo 1074 / twoTo 1074) := by decide +kernel
  have large : twoTo 700 ≤ tenTo 1074 / twoTo 1074 := by decide +kernel
  have fivefold : 0 < tenTo 1074 / twoTo 1074 := Nat.lt_of_lt_of_le (twoTo_pos 700) large
  have bits : 700 ≤ (units rank * (tenTo 1074 / twoTo 1074)).log2 :=
    le_log2_of_twoTo_le (Nat.le_trans large (Nat.le_mul_of_pos_left _ (units_pos some)))
  have digits : units rank * (tenTo 1074 / twoTo 1074) ≠ 0 :=
    Nat.ne_of_gt (Nat.mul_pos (units_pos some) fivefold)
  have places : (-(-1074 : Int)).toNat = 1074 := rfl
  unfold decimalRank exactDecimal
  simp only [if_neg digits]
  rw [if_neg (by decide), if_neg (by omega), if_neg (by decide), places]
  generalize tenTo 1074 / twoTo 1074 = five at power fivefold
  rw [power, nearestRank_mul _ _ fivefold, nearestRank_units finite]

theorem decimalRank_of_tried {rank : Nat} {first second d : Decimal}
    (found : (if decimalRank first = rank then some first
      else if decimalRank second = rank then some second else none) = some d) :
    decimalRank d = rank := by
  split at found
  · cases found
    assumption
  · split at found
    · cases found
      assumption
    · cases found

theorem decimalRank_of_neighbour? {tie rank exponent d}
    (found : neighbour? tie rank exponent = some d) : decimalRank d = rank :=
  decimalRank_of_tried found

/-- What is written for a finite number is read as that number. -/
theorem decimalRank_shortest (tie : Tie) {rank : Nat} (finite : rank < infinityRank) :
    decimalRank (shortest tie rank) = rank := by
  unfold shortest
  by_cases zero : rank = 0
  · rw [if_pos zero, zero]
    rfl
  rw [if_neg zero]
  dsimp only
  rw [decimalRank_stripped]
  cases found : (List.range 17).findSome? fun (count : Nat) =>
      neighbour? tie rank (decimalScale rank - (count + 1)) with
  | none => exact decimalRank_exactDecimal zero finite
  | some d =>
    obtain ⟨count, -, neighbour⟩ := List.exists_of_findSome?_eq_some found
    exact decimalRank_of_neighbour? neighbour

end Binary64
end TemplateBinding
