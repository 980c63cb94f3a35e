import Mathlib
import Blockwork.Number.Double
import Blockwork.Number.Decimal

-- Which reals a double stands for. They are those between the midpoints to its
-- neighbours; rounding a fraction finds that double, and the shortest decimal of
-- a double is one of them.
namespace Blockwork

theorem twoTo_pos (exponent : Nat) : 0 < twoTo exponent := Nat.pow_pos (by decide)

theorem twoTo_add (a b : Nat) : twoTo (a + b) = twoTo a * twoTo b := Nat.pow_add 2 a b

theorem twoTo_succ (exponent : Nat) : twoTo (exponent + 1) = 2 * twoTo exponent := by
  rw [twoTo_add, Nat.mul_comm]
  rfl

theorem twoTo_le {a b : Nat} (le : a ≤ b) : twoTo a ≤ twoTo b := Nat.pow_le_pow_right (by decide) le

theorem stride_pos : 0 < stride := twoTo_pos 52

-- Ranks from the first stride on have a leading bit, and an exponent one less than their stride.
theorem magnitude_normal (q : Nat) {r : Nat} (inside : r < stride) :
    magnitude (stride * (q + 1) + r) = (r + stride) * twoTo q := by
  have far : ¬stride * (q + 1) + r < stride := by
    have : stride ≤ stride * (q + 1) := Nat.le_mul_of_pos_right _ (Nat.succ_pos q)
    omega
  have quotient : (stride * (q + 1) + r) / stride = q + 1 := by
    rw [Nat.mul_add_div stride_pos, Nat.div_eq_of_lt inside, Nat.add_zero]
  rw [magnitude, if_neg far, quotient, Nat.mul_add_mod, Nat.mod_eq_of_lt inside, Nat.add_sub_cancel]

theorem magnitude_small {rank : Nat} (small : rank < stride) : magnitude rank = rank := if_pos small

theorem magnitude_stride : magnitude stride = stride := by
  have first := magnitude_normal 0 stride_pos
  rw [Nat.add_zero, Nat.zero_add, Nat.mul_one, Nat.zero_add] at first
  exact first.trans (Nat.mul_one stride)

theorem magnitude_lt_succ (rank : Nat) : magnitude rank < magnitude (rank + 1) := by
  rcases Nat.lt_trichotomy (rank + 1) stride with small | first | normal
  · rw [magnitude_small small, magnitude_small (Nat.lt_of_succ_lt small)]
    exact Nat.lt_succ_self rank
  · rw [first, magnitude_stride, magnitude_small (by omega)]
    omega
  · -- past the first stride, at its end or inside of it
    obtain ⟨q, r, inside, rfl⟩ : ∃ q r, r < stride ∧ rank = stride * (q + 1) + r := by
      have positive : 0 < rank / stride := Nat.div_pos (by omega) stride_pos
      refine ⟨rank / stride - 1, rank % stride, Nat.mod_lt _ stride_pos, ?_⟩
      rw [Nat.sub_add_cancel positive, Nat.div_add_mod]
    rw [magnitude_normal q inside]
    rcases Nat.lt_or_ge (r + 1) stride with within | full
    · rw [Nat.add_assoc, magnitude_normal q within]
      exact Nat.mul_lt_mul_of_pos_right (by omega) (twoTo_pos q)
    · have next : stride * (q + 1) + r + 1 = stride * (q + 1 + 1) + 0 := by
        rw [Nat.mul_succ stride (q + 1)]
        omega
      rw [next, magnitude_normal (q + 1) stride_pos, twoTo_succ, ← Nat.mul_assoc]
      exact Nat.mul_lt_mul_of_pos_right (by omega) (twoTo_pos q)

theorem magnitude_strictMono : StrictMono magnitude := strictMono_nat_of_lt_succ magnitude_lt_succ

theorem magnitude_pos {rank : Nat} (positive : 0 < rank) : 0 < magnitude rank :=
  Nat.lt_of_le_of_lt (Nat.zero_le _) (magnitude_strictMono positive)

theorem magnitude_power (q : Nat) : magnitude (stride * (q + 1)) = twoTo (52 + q) := by
  have exact := magnitude_normal q stride_pos
  rw [Nat.add_zero, Nat.zero_add] at exact
  exact exact.trans (twoTo_add 52 q).symm

theorem magnitude_rankLimit : magnitude rankLimit = twoTo 2098 := by
  have limit : rankLimit = stride * (2046 + 1) := by decide
  exact (congrArg magnitude limit).trans (magnitude_power 2046)

-- The search halves the interval in which the greatest number lies.
theorem greatest_spec {test : Nat → Bool} (downward : ∀ m n, m ≤ n → test n = true → test m = true)
    (bits found : Nat) (passes : test found = true) :
    test (greatest test bits found) = true ∧
      ∀ n, greatest test bits found < n → n < found + twoTo bits → test n = false := by
  induction bits generalizing found with
  | zero =>
    refine ⟨passes, fun n above below => ?_⟩
    have : twoTo 0 = 1 := rfl
    rw [greatest] at above
    omega
  | succ bits ih =>
    rw [greatest, twoTo_succ]
    cases middle : test (found + twoTo bits) with
    | true =>
      obtain ⟨holds, last⟩ := ih _ middle
      exact ⟨holds, fun n above below => last n above (by omega)⟩
    | false =>
      obtain ⟨holds, last⟩ := ih _ passes
      refine ⟨holds, fun n above below => ?_⟩
      rcases Nat.lt_or_ge n (found + twoTo bits) with low | high
      · exact last n above low
      · exact Bool.eq_false_iff.mpr fun yes => by simp [downward _ _ high yes] at middle

-- Twice a value lies between the sums of the magnitudes around it, which is that the value lies
-- between the midpoints. The midpoints themselves go to the even rank.
def Surrounds (rank : Nat) (doubled : ℚ) : Prop :=
  let low : ℚ := magnitude (rank - 1) + magnitude rank
  let high : ℚ := magnitude rank + magnitude (rank + 1)
  if rank % 2 = 0 then low ≤ doubled ∧ doubled ≤ high else low < doubled ∧ doubled < high

-- The rank is the nearest one to a value, which is counted in ones and not in the least magnitudes.
def Rounds (rank : Nat) (value : ℚ) : Prop := Surrounds rank (value * twoTo 1075)

theorem surrounds_div_iff {rank num den : Nat} (positive : 0 < den) :
    Surrounds rank (num / den) ↔
      if rank % 2 = 0 then
        (magnitude (rank - 1) + magnitude rank) * den ≤ num ∧
          num ≤ (magnitude rank + magnitude (rank + 1)) * den
      else
        (magnitude (rank - 1) + magnitude rank) * den < num ∧
          num < (magnitude rank + magnitude (rank + 1)) * den := by
  have den_pos : (0 : ℚ) < den := by exact_mod_cast positive
  simp only [Surrounds, le_div_iff₀ den_pos, div_le_iff₀ den_pos, lt_div_iff₀ den_pos,
    div_lt_iff₀ den_pos]
  norm_cast

theorem roundsTo_iff {rank num den digits : Nat} (positive : 0 < den) :
    roundsTo rank num den digits = true ↔ Rounds rank (digits * (num / den)) := by
  have scaled : (digits * (num / den) : ℚ) * twoTo 1075 = (digits * num * twoTo 1075 : Nat) / den := by
    push_cast
    ring
  rw [roundsTo, Rounds, scaled, surrounds_div_iff positive]
  split <;> simp

-- Choosing between the rank below a value and the one above.
theorem nearer_rank {rank below value den : Nat} (positive : 0 < den)
    (surrounds : Surrounds rank ((2 * value : Nat) / den))
    (reached : magnitude below * den ≤ value)
    (last : below < rank → value < magnitude (below + 1) * den) :
    (if 2 * value < (magnitude below + magnitude (below + 1)) * den then below
      else if (magnitude below + magnitude (below + 1)) * den < 2 * value then below + 1
      else if below % 2 = 0 then below else below + 1) = rank := by
  have scaled {m n : Nat} (le : m ≤ n) : magnitude m * den ≤ magnitude n * den :=
    Nat.mul_le_mul_right den (magnitude_strictMono.monotone le)
  have above : magnitude rank * den < magnitude (rank + 1) * den :=
    Nat.mul_lt_mul_of_pos_right (magnitude_lt_succ rank) positive
  rw [surrounds_div_iff positive] at surrounds
  rw [Nat.add_mul] at surrounds ⊢
  have upper : below ≤ rank := by
    by_contra far
    have := scaled (Nat.lt_of_not_le far)
    grind
  have lower : rank - 1 ≤ below := by
    by_contra far
    have := scaled (Nat.lt_of_not_le far)
    have := scaled (Nat.sub_le rank 1)
    grind
  rcases Nat.eq_or_lt_of_le upper with rfl | before
  · grind
  · obtain rfl : rank = below + 1 := by omega
    rw [Nat.add_sub_cancel] at surrounds
    grind

theorem nearestRank_of_rounds {rank num den : Nat} (positive : 0 < den) (small : rank < rankLimit)
    (rounds : Rounds rank (num / den)) : nearestRank num den = rank := by
  obtain ⟨value, exact⟩ : ∃ value, num * twoTo 1074 = value := ⟨_, rfl⟩
  have scaled : (num / den : ℚ) * twoTo 1075 = (2 * value : Nat) / den := by
    rw [← exact, twoTo_succ]
    push_cast
    ring
  have surrounds : Surrounds rank ((2 * value : Nat) / den) := scaled ▸ rounds
  have downward (m n : Nat) (le : m ≤ n) (passes : decide (magnitude n * den ≤ value) = true) :
      decide (magnitude m * den ≤ value) = true := by
    have below := Nat.mul_le_mul_right den (magnitude_strictMono.monotone le)
    simp only [decide_eq_true_eq] at passes ⊢
    exact below.trans passes
  obtain ⟨passes, last⟩ := greatest_spec downward 63 0 (by simp [magnitude_small stride_pos])
  simp only [nearestRank, exact]
  apply nearer_rank positive surrounds (of_decide_eq_true passes)
  intro before
  have inside : rankLimit < 0 + twoTo 63 := by decide
  have fails := last _ (Nat.lt_succ_self _) (by omega)
  exact Nat.lt_of_not_le (of_decide_eq_false fails)

-- Ten to the exponent, as a number.
theorem tenTo_value (exponent : Int) :
    0 < (tenTo exponent).2 ∧ ((tenTo exponent).1 / (tenTo exponent).2 : ℚ) = 10 ^ exponent := by
  unfold tenTo
  split
  · next nonneg =>
    refine ⟨Nat.one_pos, ?_⟩
    obtain ⟨n, rfl⟩ := Int.eq_ofNat_of_zero_le nonneg
    simp
  · next negative =>
    refine ⟨Nat.pow_pos (by decide), ?_⟩
    obtain ⟨n, rfl⟩ : ∃ n : Nat, exponent = -n := ⟨exponent.natAbs, by omega⟩
    simp

theorem Surrounds.bounds {rank : Nat} {doubled : ℚ} (surrounds : Surrounds rank doubled) :
    (magnitude (rank - 1) + magnitude rank : ℚ) ≤ doubled ∧
      doubled ≤ magnitude rank + magnitude (rank + 1) := by
  unfold Surrounds at surrounds
  split at surrounds
  · exact surrounds
  · exact ⟨surrounds.1.le, surrounds.2.le⟩

theorem Rounds.one_le {rank : Nat} {value : ℚ} (rounds : Rounds rank value) (positive : 0 < rank) :
    1 ≤ value * twoTo 1075 := by
  have least : 1 ≤ magnitude (rank - 1) + magnitude rank :=
    Nat.le_add_left_of_le (magnitude_pos positive)
  have least : (1 : ℚ) ≤ magnitude (rank - 1) + magnitude rank := by exact_mod_cast least
  exact least.trans rounds.bounds.1

theorem Rounds.lt {rank : Nat} {value : ℚ} (rounds : Rounds rank value) (small : rank < rankLimit) :
    value < twoTo 1024 := by
  have limit : magnitude rank + magnitude (rank + 1) < twoTo (1024 + 1075) := by
    calc magnitude rank + magnitude (rank + 1) < magnitude rankLimit + magnitude rankLimit :=
          Nat.add_lt_add_of_lt_of_le (magnitude_strictMono small) (magnitude_strictMono.monotone small)
      _ = 2 * twoTo 2098 := by rw [magnitude_rankLimit, Nat.two_mul]
      _ = twoTo (1024 + 1075) := (twoTo_succ 2098).symm
  have limit : (magnitude rank + magnitude (rank + 1) : ℚ) < twoTo 1024 * twoTo 1075 := by
    rw [twoTo_add] at limit
    exact_mod_cast limit
  have unit : (0 : ℚ) < twoTo 1075 := by exact_mod_cast twoTo_pos 1075
  exact lt_of_mul_lt_mul_right (rounds.bounds.2.trans_lt limit) unit.le

-- Neither of the two early answers is given for a decimal that rounds to a finite number.
theorem Rounds.exponent_lt {rank digits : Nat} {exponent : Int} (positive : 0 < digits)
    (small : rank < rankLimit) (rounds : Rounds rank (digits * 10 ^ exponent)) : exponent < 310 := by
  by_contra large
  have one : (1 : ℚ) ≤ digits := by exact_mod_cast positive
  have tens : (twoTo 1024 : ℚ) ≤ 10 ^ (310 : Int) := by
    have : twoTo 1024 ≤ 10 ^ 310 := by decide +kernel
    exact_mod_cast this
  have grows : (10 : ℚ) ^ (310 : Int) ≤ 10 ^ exponent := zpow_le_zpow_right₀ (by norm_num) (by omega)
  have most := rounds.lt small
  have least : (10 : ℚ) ^ exponent ≤ digits * 10 ^ exponent :=
    le_mul_of_one_le_left (zpow_nonneg (by norm_num) exponent) one
  exact absurd most (not_lt.mpr (tens.trans (grows.trans least)))

theorem Rounds.lt_exponent {rank digits : Nat} {exponent : Int} (positive : 0 < rank)
    (rounds : Rounds rank (digits * 10 ^ exponent)) : -(digits.log2 + 400 : Int) < exponent := by
  by_contra small
  have size : digits * twoTo 1075 < 10 ^ (digits.log2 + 400) :=
    calc digits * twoTo 1075 < 2 ^ (digits.log2 + 1) * twoTo 1075 :=
          Nat.mul_lt_mul_of_pos_right Nat.lt_log2_self (twoTo_pos 1075)
      _ = 2 ^ digits.log2 * (2 * twoTo 1075) := by rw [Nat.pow_succ, Nat.mul_assoc]
      _ ≤ 10 ^ digits.log2 * 10 ^ 400 :=
          Nat.mul_le_mul (Nat.pow_le_pow_left (by decide) _) (by decide +kernel)
      _ = 10 ^ (digits.log2 + 400) := by rw [Nat.pow_add]
  have size : (digits * twoTo 1075 : ℚ) < 10 ^ (digits.log2 + 400) := by exact_mod_cast size
  have shrinks : (10 : ℚ) ^ exponent ≤ (10 ^ (digits.log2 + 400))⁻¹ := by
    rw [← zpow_natCast, ← zpow_neg]
    exact zpow_le_zpow_right₀ (by norm_num) (by push_cast; omega)
  have tens : (0 : ℚ) < 10 ^ (digits.log2 + 400) := by positivity
  have most : (digits * 10 ^ exponent * twoTo 1075 : ℚ) < 1 :=
    calc (digits * 10 ^ exponent * twoTo 1075 : ℚ) = digits * twoTo 1075 * 10 ^ exponent := by ring
      _ ≤ digits * twoTo 1075 * (10 ^ (digits.log2 + 400))⁻¹ :=
          mul_le_mul_of_nonneg_left shrinks (mul_nonneg (Nat.cast_nonneg _) (Nat.cast_nonneg _))
      _ < 10 ^ (digits.log2 + 400) * (10 ^ (digits.log2 + 400))⁻¹ :=
          mul_lt_mul_of_pos_right size (inv_pos.mpr tens)
      _ = 1 := mul_inv_cancel₀ tens.ne'
  exact absurd (rounds.one_le positive) (not_le.mpr most)

theorem Rounds.digits_pos {rank digits : Nat} {exponent : Int} (positive : 0 < rank)
    (rounds : Rounds rank (digits * 10 ^ exponent)) : 0 < digits := by
  rcases Nat.eq_zero_or_pos digits with rfl | filled
  · have least := rounds.one_le positive
    rw [Nat.cast_zero, zero_mul, zero_mul] at least
    exact absurd least (by norm_num)
  · exact filled

theorem ofDecimal_of_rounds {rank digits : Nat} {exponent : Int} (positive : 0 < rank)
    (small : rank < rankLimit) (rounds : Rounds rank (digits * 10 ^ exponent)) (negative : Bool) :
    Double.ofDecimal negative digits exponent = .finite negative ⟨rank, small⟩ := by
  have filled := rounds.digits_pos positive
  have upper := rounds.exponent_lt filled small
  have lower := rounds.lt_exponent positive
  have found (num den : Nat) (den_pos : 0 < den) (same : (num / den : ℚ) = digits * 10 ^ exponent) :
      Double.ofFraction negative num den = .finite negative ⟨rank, small⟩ := by
    rw [Double.ofFraction, nearestRank_of_rounds den_pos small (same ▸ rounds), Double.ofRank, dif_pos small]
  rw [Double.ofDecimal, if_neg filled.ne', if_neg (by omega), if_neg (by omega)]
  split
  · next nonneg =>
    apply found _ _ Nat.one_pos
    obtain ⟨n, rfl⟩ := Int.eq_ofNat_of_zero_le nonneg
    simp
  · next below =>
    apply found _ _ (Nat.pow_pos (by decide))
    obtain ⟨n, rfl⟩ : ∃ n : Nat, exponent = -n := ⟨exponent.natAbs, by omega⟩
    simp [div_eq_mul_inv]

theorem onGrid_rounds {tie : Tie} {rank : Nat} {exponent : Int} {decimal : Decimal}
    (found : onGrid tie rank exponent = some decimal) :
    Rounds rank (decimal.digits * 10 ^ decimal.exponent) := by
  obtain ⟨positive, value⟩ := tenTo_value exponent
  have accepted : decimal.exponent = exponent ∧
      roundsTo rank (tenTo exponent).1 (tenTo exponent).2 decimal.digits = true := by
    simp only [onGrid] at found
    split at found
    · cases found
    · next low high =>
      cases found
      exact ⟨rfl, low⟩
    · next low high =>
      cases found
      exact ⟨rfl, high⟩
    · next low high => 
      split at found
      · cases found
        exact ⟨rfl, low⟩
      split at found
      · cases found
        exact ⟨rfl, high⟩
      · cases tie with
        | up =>
          cases found
          exact ⟨rfl, high⟩
        | even =>
          cases found
          refine ⟨rfl, ?_⟩
          simp only
          split
          · exact low
          · exact high
  rw [accepted.1, ← value]
  exact (roundsTo_iff positive).mp accepted.2

theorem surrounds_self (rank : Nat) : Surrounds rank (2 * magnitude rank) := by
  have below : (magnitude (rank - 1) : ℚ) ≤ magnitude rank := by
    exact_mod_cast magnitude_strictMono.monotone (Nat.sub_le rank 1)
  have above : (magnitude rank : ℚ) < magnitude (rank + 1) := by exact_mod_cast magnitude_lt_succ rank
  unfold Surrounds
  split
  · constructor <;> linarith
  · next odd =>
    have positive : 0 < rank := by omega
    have below : (magnitude (rank - 1) : ℚ) < magnitude rank := by
      exact_mod_cast magnitude_strictMono (Nat.sub_lt positive Nat.one_pos)
    constructor <;> linarith

-- A magnitude is a whole number of times two to the -n, hence a decimal with n places.
theorem exact_surrounds (rank n : Nat) {exponent : Int} (same : exponent = -n) :
    Surrounds rank ((magnitude rank * Nat.pow 5 n : Nat) * 10 ^ exponent * twoTo (n + 1)) := by
  have tens : (10 : ℚ) ^ n = 5 ^ n * 2 ^ n := by rw [← mul_pow]; norm_num
  have doubled : ((magnitude rank * Nat.pow 5 n : Nat) * 10 ^ exponent * twoTo (n + 1) : ℚ)
      = 2 * magnitude rank := by
    rw [twoTo_succ, same, zpow_neg, zpow_natCast, tens]
    simp only [Nat.pow_eq, twoTo]
    push_cast
    field_simp
  rw [doubled]
  exact surrounds_self rank

theorem shortest_rounds (tie : Tie) (rank : Nat) :
    Rounds rank ((shortest tie rank).digits * 10 ^ (shortest tie rank).exponent) := by
  unfold shortest
  cases found : (List.range 25).findSome? fun (step : Nat) => onGrid tie rank (coarsest rank - step) with
  | some decimal =>
    obtain ⟨step, _, found⟩ := List.exists_of_findSome?_eq_some found
    exact onGrid_rounds found
  | none =>
    rw [Option.getD_none]
    exact exact_surrounds rank 1074 rfl

-- Numbers that doubles hold without rounding.
theorem nearestRank_exact {rank num den : Nat} (positive : 0 < den) (small : rank < rankLimit)
    (exact : num * twoTo 1074 = magnitude rank * den) : nearestRank num den = rank := by
  apply nearestRank_of_rounds positive small
  have den_pos : (0 : ℚ) < den := by exact_mod_cast positive
  have exact : (num * twoTo 1074 : ℚ) = magnitude rank * den := by exact_mod_cast exact
  have doubled : (num / den : ℚ) * twoTo 1075 = 2 * magnitude rank := by
    rw [twoTo_succ 1074, div_mul_eq_mul_div, div_eq_iff den_pos.ne']
    push_cast
    linarith
  rw [Rounds, doubled]
  exact surrounds_self rank

-- Fifty-three bits at any place of a wide range.
theorem exists_magnitude {m j : Nat} (bits : m < twoTo 53) (low : 52 ≤ j) (high : j ≤ 2045) :
    ∃ rank, rank < rankLimit ∧ magnitude rank = m * twoTo j := by
  have limit : m * twoTo j < magnitude rankLimit :=
    calc m * twoTo j < twoTo 53 * twoTo j := Nat.mul_lt_mul_of_pos_right bits (twoTo_pos j)
      _ = twoTo (53 + j) := (twoTo_add 53 j).symm
      _ ≤ twoTo 2098 := twoTo_le (by omega)
      _ = magnitude rankLimit := magnitude_rankLimit.symm
  have below {rank : Nat} (is : magnitude rank = m * twoTo j) : rank < rankLimit :=
    magnitude_strictMono.lt_iff_lt.mp (is.trans_lt limit)
  rcases Nat.eq_zero_or_pos m with rfl | positive
  · have zero : magnitude 0 = 0 * twoTo j := by rw [magnitude_small stride_pos, Nat.zero_mul]
    exact ⟨0, below zero, zero⟩
  · -- the leading bit is moved to the place of the stride
    have top : m.log2 ≤ 52 := Nat.lt_succ_iff.mp ((Nat.log2_lt positive.ne').mpr bits)
    have shifted : stride ≤ m * twoTo (52 - m.log2) ∧ m * twoTo (52 - m.log2) < 2 * stride := by
      have split (k : Nat) : twoTo (m.log2 + k) * twoTo (52 - m.log2) = twoTo (52 + k) := by
        rw [← twoTo_add]
        congr 1
        omega
      refine ⟨(split 0).ge.trans (Nat.mul_le_mul_right _ (Nat.log2_self_le positive.ne')), ?_⟩
      calc m * twoTo (52 - m.log2) < twoTo (m.log2 + 1) * twoTo (52 - m.log2) :=
            Nat.mul_lt_mul_of_pos_right Nat.lt_log2_self (twoTo_pos _)
        _ = 2 * stride := (split 1).trans (twoTo_succ 52)
    have exact := magnitude_normal (j - (52 - m.log2)) (r := m * twoTo (52 - m.log2) - stride) (by omega)
    rw [Nat.sub_add_cancel shifted.1, Nat.mul_assoc, ← twoTo_add, Nat.add_sub_cancel' (by omega)] at exact
    exact ⟨_, below exact, exact⟩

-- A number that a double holds is its nearest rank.
theorem exact_rank {n m j : Nat} (same : n = m * twoTo j) (bits : m < twoTo 53) (high : j ≤ 900) :
    magnitude (nearestRank n 1) = n * twoTo 1074 := by
  obtain ⟨rank, small, exact⟩ := exists_magnitude (j := j + 1074) bits (by omega) (by omega)
  have exact : magnitude rank = n * twoTo 1074 := by rw [exact, same, twoTo_add, Nat.mul_assoc]
  have nearest : nearestRank n 1 = rank := nearestRank_exact Nat.one_pos small (by rw [exact, Nat.mul_one])
  rw [nearest]
  exact exact

theorem small_rank {n : Nat} (small : n ≤ twoTo 53) :
    magnitude (nearestRank n 1) = n * twoTo 1074 := by
  rcases Nat.lt_or_eq_of_le small with less | rfl
  · exact exact_rank (j := 0) (Nat.mul_one n).symm less (by decide)
  · exact exact_rank (m := 1) (Nat.one_mul _).symm (by decide) (by decide)

theorem tensRank_exact {k : Nat} (small : k ≤ 22) : magnitude (tensRank k) = 10 ^ k * twoTo 1074 := by
  have factors : Nat.pow 10 k = 5 ^ k * twoTo k := by
    rw [Nat.pow_eq, twoTo, Nat.pow_eq, ← Nat.mul_pow]
  have bits : 5 ^ k < twoTo 53 := (Nat.pow_le_pow_right (by decide) small).trans_lt (by decide)
  exact exact_rank factors bits (by omega)

-- One product or quotient of numbers that doubles hold rounds once.
theorem timesRank_of_rounds {rank n k : Nat} (bits : n ≤ twoTo 53) (small : k ≤ 22) (inside : rank < rankLimit)
    (rounds : Rounds rank (n * 10 ^ k)) : timesRank (nearestRank n 1) (tensRank k) = rank := by
  apply nearestRank_of_rounds (twoTo_pos 2148) inside
  have units : twoTo 2148 = twoTo 1074 * twoTo 1074 := twoTo_add 1074 1074
  have positive : (twoTo 1074 : ℚ) ≠ 0 := by exact_mod_cast (twoTo_pos 1074).ne'
  have value : ((magnitude (nearestRank n 1) * magnitude (tensRank k) : Nat) / (twoTo 2148 : Nat) : ℚ)
      = n * 10 ^ k := by
    rw [small_rank bits, tensRank_exact small, units]
    push_cast
    field_simp
  rwa [value]

theorem overRank_of_rounds {rank n k : Nat} (bits : n ≤ twoTo 53) (small : k ≤ 22) (inside : rank < rankLimit)
    (rounds : Rounds rank (n / 10 ^ k)) : overRank (nearestRank n 1) (tensRank k) = rank := by
  have tens := tensRank_exact small
  have positive : 0 < magnitude (tensRank k) := by
    rw [tens]
    exact Nat.mul_pos (Nat.pow_pos (by decide)) (twoTo_pos 1074)
  apply nearestRank_of_rounds positive inside
  have unit : (twoTo 1074 : ℚ) ≠ 0 := by exact_mod_cast (twoTo_pos 1074).ne'
  have value : (magnitude (nearestRank n 1) / magnitude (tensRank k) : ℚ) = n / 10 ^ k := by
    rw [small_rank bits, tens]
    push_cast
    field_simp
  rwa [value]

end Blockwork
