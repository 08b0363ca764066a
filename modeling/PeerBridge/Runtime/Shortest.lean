import PeerBridge.Runtime.Number

/-!
# Seventeen digits determine a double

The rendering of a `float` tries the precisions in turn and takes the first decimal that rounds
back. That one of them does is the classical fact about seventeen digits: the decimal of seventeen
digits nearest to `q` is closer to it than half the distance to the next binary64 number, on either
side.

* `two_zpow_binaryExponent`, `ten_zpow_decimalExponent`: what the two exponents are;
* `doublePos_of_near`: whatever is closer than half a gap rounds to the number;
* `candidate_seventeen`, `shortest_spec`: the search finds a decimal;
* `length_ratRepr_le`: the rendering of a clock reading is short.
-/

namespace Py

/-! ## Powers and exponents -/

/-- The computed power of two is the power. -/
theorem pow2_eq (e : ℤ) : pow2 e = (2 : ℚ) ^ e := by
  unfold pow2
  split
  · next h =>
    lift e to ℕ using h
    simp
  · next h =>
    obtain ⟨n, hn⟩ : ∃ n : ℕ, e = -n := ⟨(-e).toNat, by omega⟩
    subst hn
    simp

/-- The computed power of ten is the power. -/
theorem pow10_eq (e : ℤ) : pow10 e = (10 : ℚ) ^ e := by
  unfold pow10
  split
  · next h =>
    lift e to ℕ using h
    simp
  · next h =>
    obtain ⟨n, hn⟩ : ∃ n : ℕ, e = -n := ⟨(-e).toNat, by omega⟩
    subst hn
    simp

/-- A quotient between powers of a base lies between powers. -/
theorem div_between {b : ℚ} (hb : 0 < b) {x y : ℚ} (hy : 0 < y) {m n : ℤ}
    (hx : b ^ m ≤ x ∧ x < b ^ (m + 1)) (hyb : b ^ n ≤ y ∧ y < b ^ (n + 1)) :
    b ^ (m - n - 1) < x / y ∧ x / y < b ^ (m - n + 1) := by
  have hne : b ≠ 0 := hb.ne'
  refine ⟨?_, ?_⟩
  · rw [lt_div_iff₀ hy]
    calc b ^ (m - n - 1) * y < b ^ (m - n - 1) * b ^ (n + 1) := by
          exact mul_lt_mul_of_pos_left hyb.2 (zpow_pos hb _)
      _ = b ^ m := by rw [← zpow_add₀ hne]; congr 1; ring
      _ ≤ x := hx.1
  · rw [div_lt_iff₀ hy]
    calc x < b ^ (m + 1) := hx.2
      _ = b ^ (m - n + 1) * b ^ n := by rw [← zpow_add₀ hne]; congr 1; ring
      _ ≤ b ^ (m - n + 1) * y := mul_le_mul_of_nonneg_left hyb.1 (zpow_pos hb _).le

/-- A natural number is between two consecutive powers of two. -/
theorem log2_between {n : ℕ} (hn : n ≠ 0) :
    (2 : ℚ) ^ (Nat.log2 n : ℤ) ≤ n ∧ (n : ℚ) < 2 ^ ((Nat.log2 n : ℤ) + 1) := by
  refine ⟨?_, ?_⟩
  · rw [zpow_natCast]
    exact_mod_cast Nat.log2_self_le hn
  · have h := Nat.lt_log2_self (n := n)
    have hc : ((Nat.log2 n : ℤ) + 1) = ((Nat.log2 n + 1 : ℕ) : ℤ) := by push_cast; ring
    rw [hc, zpow_natCast]
    exact_mod_cast h

/-- A natural number is between two consecutive powers of ten. -/
theorem decimalLen_between {n : ℕ} (hn : n ≠ 0) :
    (10 : ℚ) ^ ((decimalLen n : ℤ) - 1) ≤ n ∧ (n : ℚ) < 10 ^ ((decimalLen n : ℤ) - 1 + 1) := by
  have hpos := decimalLen_pos n
  obtain ⟨k, hk⟩ : ∃ k, decimalLen n = k + 1 := ⟨decimalLen n - 1, by omega⟩
  have hlt : n < 10 ^ (k + 1) := (decimalLen_le_iff (by omega)).mp hk.le
  have hle : 10 ^ k ≤ n := by
    rcases Nat.eq_zero_or_pos k with rfl | hk0
    · exact Nat.pos_of_ne_zero hn
    · by_contra hc
      have := (decimalLen_le_iff hk0).mpr (not_le.mp hc)
      omega
  have h1 : ((decimalLen n : ℤ) - 1) = (k : ℤ) := by omega
  have h2 : ((decimalLen n : ℤ) - 1 + 1) = ((k + 1 : ℕ) : ℤ) := by omega
  rw [h2, h1, zpow_natCast, zpow_natCast]
  exact ⟨by exact_mod_cast hle, by exact_mod_cast hlt⟩

section exponents

variable {q : ℚ} (hq : 0 < q)

include hq

/-- A positive rational is the quotient of its parts. -/
theorem num_natAbs_div_den : (q.num.natAbs : ℚ) / q.den = q ∧ q.num.natAbs ≠ 0 := by
  have hnum : 0 < q.num := Rat.num_pos.mpr hq
  have hcast : (q.num.natAbs : ℚ) = q.num := by
    rw [← Int.cast_natCast, Int.natAbs_of_nonneg hnum.le]
  exact ⟨by rw [hcast, Rat.num_div_den], by omega⟩

/-- The binary exponent of a positive number. -/
theorem two_zpow_binaryExponent :
    (2 : ℚ) ^ binaryExponent q ≤ q ∧ q < 2 ^ (binaryExponent q + 1) := by
  obtain ⟨hdiv, hnum⟩ := num_natAbs_div_den hq
  have hden : (0 : ℚ) < q.den := by exact_mod_cast q.den_pos
  have h := div_between (by norm_num) hden (log2_between hnum) (log2_between q.den_ne_zero)
  rw [hdiv] at h
  unfold binaryExponent
  simp only [pow2_eq]
  split
  · next hle => exact ⟨hle, h.2⟩
  · next hgt =>
    refine ⟨h.1.le, ?_⟩
    rw [sub_add_cancel]
    exact not_le.mp hgt

/-- The decimal exponent of a positive number. -/
theorem ten_zpow_decimalExponent :
    (10 : ℚ) ^ decimalExponent q ≤ q ∧ q < 10 ^ (decimalExponent q + 1) := by
  obtain ⟨hdiv, hnum⟩ := num_natAbs_div_den hq
  have hden : (0 : ℚ) < q.den := by exact_mod_cast q.den_pos
  have h := div_between (by norm_num) hden (decimalLen_between hnum)
    (decimalLen_between q.den_ne_zero)
  have hexp : (decimalLen q.num.natAbs : ℤ) - 1 - ((decimalLen q.den : ℤ) - 1)
      = (decimalLen q.num.natAbs : ℤ) - decimalLen q.den := by ring
  rw [hdiv, hexp] at h
  unfold decimalExponent
  simp only [pow10_eq]
  split
  · next hle => exact ⟨hle, h.2⟩
  · next hgt =>
    refine ⟨h.1.le, ?_⟩
    rw [sub_add_cancel]
    exact not_le.mp hgt

/-- The binary exponent is the only one. -/
theorem binaryExponent_eq {e : ℤ} (hle : (2 : ℚ) ^ e ≤ q) (hlt : q < 2 ^ (e + 1)) :
    binaryExponent q = e := by
  obtain ⟨h1, h2⟩ := two_zpow_binaryExponent hq
  have ha := (zpow_lt_zpow_iff_right₀ (by norm_num : (1 : ℚ) < 2)).mp (hle.trans_lt h2)
  have hb := (zpow_lt_zpow_iff_right₀ (by norm_num : (1 : ℚ) < 2)).mp (h1.trans_lt hlt)
  omega

end exponents

/-! ## Rounding -/

/-- What is nearer than a half to an integer rounds to it. -/
theorem roundHalfEven_eq {x : ℚ} {n : ℤ} (h : |x - n| < 1 / 2) : roundHalfEven x = n := by
  obtain ⟨h1, h2⟩ := abs_lt.mp h
  unfold roundHalfEven
  rcases lt_or_ge x n with hx | hx
  · have hf : ⌊x⌋ = n - 1 := by
      rw [Int.floor_eq_iff]
      push_cast
      constructor <;> linarith
    have hr : ¬ x - ((n - 1 : ℤ) : ℚ) < 1 / 2 := by push_cast; linarith
    have hr' : 1 / 2 < x - ((n - 1 : ℤ) : ℚ) := by push_cast; linarith
    simp only [hf]
    rw [if_neg hr, if_pos hr']
    ring
  · have hf : ⌊x⌋ = n := by
      rw [Int.floor_eq_iff]
      constructor <;> linarith
    simp only [hf]
    rw [if_pos (by linarith)]

/-- Rounding moves a number by a half at most. -/
theorem abs_roundHalfEven_sub_le (x : ℚ) : |(roundHalfEven x : ℚ) - x| ≤ 1 / 2 := by
  have h1 := Int.floor_le x
  have h2 := Int.lt_floor_add_one x
  rw [abs_le]
  unfold roundHalfEven
  dsimp only
  split
  · constructor <;> linarith
  · split
    · push_cast
      constructor <;> linarith
    · split
      · constructor <;> linarith
      · push_cast
        constructor <;> linarith

/-- The distance between neighbouring binary64 numbers at a positive `q`. -/
def ulp (q : ℚ) : ℚ := 2 ^ max (binaryExponent q - 52) (-1074)

/-- The spacing of the doubles is positive. -/
theorem ulp_pos (q : ℚ) : 0 < ulp q := zpow_pos (by norm_num) _

/-- The nearest double is the nearest multiple of the spacing. -/
theorem doublePos_eq (q : ℚ) : doublePos q = roundHalfEven (q / ulp q) * ulp q := by
  simp only [doublePos, pow2_eq, ulp]

/-- A binary64 number is a whole number of its units, below `2 ^ 53` of them. -/
theorem exists_units {q : ℚ} (hq : 0 < q) (hd : doublePos q = q) :
    ∃ m : ℤ, q = m * ulp q ∧ m < 2 ^ 53 := by
  have hu := ulp_pos q
  rw [doublePos_eq] at hd
  obtain ⟨-, h2⟩ := two_zpow_binaryExponent hq
  refine ⟨roundHalfEven (q / ulp q), hd.symm, ?_⟩
  have hlt : (roundHalfEven (q / ulp q) : ℚ) * ulp q < 2 ^ 53 * ulp q := by
    rw [hd]
    calc q < 2 ^ (binaryExponent q + 1) := h2
      _ = 2 ^ (53 : ℤ) * 2 ^ (binaryExponent q - 52) := by
          rw [← zpow_add₀ (by norm_num)]
          congr 1
          ring
      _ ≤ 2 ^ 53 * ulp q := by
          refine mul_le_mul (by norm_num) ?_ (zpow_pos (by norm_num) _).le (by norm_num)
          exact zpow_le_zpow_right₀ (by norm_num) (le_max_left _ _)
  exact_mod_cast lt_of_mul_lt_mul_right hlt hu.le

/-- A number whose distance to a whole number of its own units is below half a unit rounds there. -/
theorem doublePos_eq_of_units {q y : ℚ} {k : ℤ} (hk : q = k * ulp y) (h : |y - q| < ulp y / 2) :
    doublePos y = q := by
  have hu := ulp_pos y
  have hdiv : |y / ulp y - k| < 1 / 2 := by
    have he : y / ulp y - k = (y - q) / ulp y := by
      rw [hk]
      field_simp
    rw [he, abs_div, abs_of_pos hu, div_lt_iff₀ hu]
    linarith
  rw [doublePos_eq, roundHalfEven_eq hdiv, hk]

/-- **What is near enough to a binary64 number rounds to it**: within half a unit where the
neighbour below is a unit away, and within a quarter at a power of two, where it may be half a unit
away. -/
theorem doublePos_of_near {q y : ℚ} (hq : 0 < q) (hd : doublePos q = q)
    (h : |y - q| < ulp q / 4 ∨ |y - q| < ulp q / 2 ∧ 2 ^ binaryExponent q + ulp q ≤ q) :
    doublePos y = q := by
  obtain ⟨m, hm, -⟩ := exists_units hq hd
  obtain ⟨h1, h2⟩ := two_zpow_binaryExponent hq
  have hu := ulp_pos q
  set E := binaryExponent q with hE
  have hm1 : 1 ≤ m := by
    by_contra hc
    have hm0 : (m : ℚ) ≤ 0 := by exact_mod_cast (by omega : m ≤ 0)
    have := mul_nonpos_of_nonpos_of_nonneg hm0 hu.le
    linarith
  have hqu : ulp q ≤ q := by
    have hm1' : (1 : ℚ) ≤ m := by exact_mod_cast hm1
    nlinarith
  have hEmin : -1074 ≤ E := by
    by_contra hc
    have hulp : ulp q = 2 ^ (-1074 : ℤ) := by rw [ulp, max_eq_right (by omega)]
    have hle : (2 : ℚ) ^ (E + 1) ≤ 2 ^ (-1074 : ℤ) := zpow_le_zpow_right₀ (by norm_num) (by omega)
    linarith
  have hhalf : |y - q| < ulp q / 2 := by
    rcases h with h | h
    · linarith
    · exact h.1
  obtain ⟨hy1, hy2⟩ := abs_lt.mp hhalf
  -- The powers of two around `q` are whole numbers of its units.
  have hwhole : ∀ e : ℤ, E ≤ e → ∃ n : ℤ, (2 : ℚ) ^ e = n * ulp q := by
    intro e he
    obtain ⟨j, hj⟩ : ∃ j : ℕ, e = j + max (E - 52) (-1074) :=
      ⟨(e - max (E - 52) (-1074)).toNat, by omega⟩
    refine ⟨2 ^ j, ?_⟩
    rw [hj, zpow_add₀ (by norm_num), ulp, zpow_natCast]
    push_cast
    rfl
  have hstep : ∀ a b : ℤ, (a : ℚ) * ulp q < b * ulp q → (a : ℚ) * ulp q + ulp q ≤ b * ulp q := by
    intro a b hab
    have hlt : a < b := by exact_mod_cast lt_of_mul_lt_mul_right hab hu.le
    have hle : (a : ℚ) + 1 ≤ b := by exact_mod_cast hlt
    nlinarith
  have htop : y < 2 ^ (E + 1) := by
    obtain ⟨n, hn⟩ := hwhole (E + 1) (by omega)
    have := hstep m n (by rw [← hm, ← hn]; exact h2)
    rw [← hm, ← hn] at this
    linarith
  have hy : 0 < y := by linarith
  rcases le_or_gt ((2 : ℚ) ^ E) y with hlow | hlow
  · have hexp : binaryExponent y = E := binaryExponent_eq hy hlow htop
    have hulp : ulp y = ulp q := by rw [ulp, ulp, hexp]
    exact doublePos_eq_of_units (by rw [hulp]; exact hm) (by rw [hulp]; exact hhalf)
  · -- Below the power of two the number is the power itself, and the unit may be half as large.
    have hquarter : |y - q| < ulp q / 4 := by
      rcases h with h | h
      · exact h
      · linarith [h.2]
    obtain ⟨hz1, hz2⟩ := abs_lt.mp hquarter
    obtain ⟨n, hn⟩ := hwhole E le_rfl
    have hpow : q = 2 ^ E := by
      rcases h1.lt_or_eq with hlt | heq
      · have := hstep n m (by rw [← hm, ← hn]; exact hlt)
        rw [← hm, ← hn] at this
        linarith
      · exact heq.symm
    have hsplit : (2 : ℚ) ^ E = 2 * 2 ^ (E - 1) := by
      rw [← zpow_one_add₀ (by norm_num)]
      congr 1
      ring
    have hexp : binaryExponent y = E - 1 := by
      refine binaryExponent_eq hy ?_ ?_
      · linarith
      · rw [sub_add_cancel]
        exact hlow
    rcases lt_or_ge (-1074) (E - 52) with hnormal | hsub
    · have hulp : ulp q = 2 * ulp y := by
        rw [ulp, ulp, hexp, max_eq_left (by omega), max_eq_left (by omega),
          ← zpow_one_add₀ (by norm_num)]
        congr 1
        ring
      refine doublePos_eq_of_units (k := 2 * m) ?_ ?_
      · push_cast
        rw [hm, hulp]
        ring
      · rw [hulp] at hquarter
        linarith
    · have hulp : ulp y = ulp q := by
        rw [ulp, ulp, hexp, max_eq_right (by omega), max_eq_right (by omega)]
      exact doublePos_eq_of_units (by rw [hulp]; exact hm) (by rw [hulp]; exact hhalf)

/-! ## The search -/

/-- A candidate is a decimal that rounds back. -/
theorem candidate_spec {q : ℚ} {n d : ℕ} (h : candidate q n = some d) :
    doublePos (d / pow10 ((n : ℤ) - 1 - decimalExponent q)) = q := by
  unfold candidate at h
  dsimp only at h
  split at h
  · next hb =>
    obtain rfl := Option.some.inj h
    exact eq_of_beq hb
  · split at h
    · next hb =>
      obtain rfl := Option.some.inj h
      exact eq_of_beq hb
    · split at h
      · next hb =>
        obtain rfl := Option.some.inj h
        exact eq_of_beq hb
      · cases h

/-- The decimal of seventeen digits nearest to a binary64 number rounds back to it. -/
theorem candidate_seventeen {q : ℚ} (hq : 0 < q) (hd : doublePos q = q) :
    ∃ d, candidate q 17 = some d := by
  set s := pow10 (((17 : ℕ) : ℤ) - 1 - decimalExponent q) with hs
  have hs10 : s = 10 ^ (16 - decimalExponent q) := by
    rw [hs, pow10_eq]
    norm_num
  have hspos : 0 < s := by rw [hs10]; exact zpow_pos (by norm_num) _
  obtain ⟨h1, -⟩ := ten_zpow_decimalExponent hq
  set r := (roundHalfEven (q * s)).toNat with hr
  have hxpos : 0 < q * s := mul_pos hq hspos
  have hround := abs_le.mp (abs_roundHalfEven_sub_le (q * s))
  have hrcast : (r : ℚ) = roundHalfEven (q * s) := by
    have hnonneg : 0 ≤ roundHalfEven (q * s) := by
      by_contra hc
      have hle : (roundHalfEven (q * s) : ℚ) ≤ -1 := by
        exact_mod_cast (by omega : roundHalfEven (q * s) ≤ -1)
      linarith [hround.1]
    rw [hr, ← Int.cast_natCast, Int.toNat_of_nonneg hnonneg]
  -- The distance is half a unit of the last digit, which is at most `q / 10 ^ 16`.
  have herr : |(r : ℚ) / s - q| ≤ q / (2 * 10 ^ 16) := by
    have hdist : |(r : ℚ) - q * s| ≤ 1 / 2 := by
      rw [hrcast]
      exact abs_roundHalfEven_sub_le (q * s)
    have hq16 : (10 : ℚ) ^ 16 ≤ q * s := by
      have he : (10 : ℚ) ^ 16 = 10 ^ decimalExponent q * s := by
        rw [hs10, ← zpow_add₀ (by norm_num)]
        norm_num
      rw [he]
      exact mul_le_mul_of_nonneg_right h1 hspos.le
    have he : (r : ℚ) / s - q = (r - q * s) / s := by
      field_simp
    rw [he, abs_div, abs_of_pos hspos, div_le_iff₀ hspos]
    refine hdist.trans ?_
    rw [div_mul_eq_mul_div, le_div_iff₀ (by norm_num)]
    linarith
  have hnear : doublePos ((r : ℚ) / s) = q := by
    obtain ⟨m, hm, hmlt⟩ := exists_units hq hd
    have hu := ulp_pos q
    have hmlt' : (m : ℚ) ≤ 2 ^ 53 - 1 := by exact_mod_cast (by omega : m ≤ 2 ^ 53 - 1)
    refine doublePos_of_near hq hd ?_
    rcases lt_or_ge m (2 ^ 52 + 1) with hsmall | hlarge
    · left
      have hm52 : (m : ℚ) ≤ 2 ^ 52 := by exact_mod_cast (by omega : m ≤ 2 ^ 52)
      refine herr.trans_lt ?_
      rw [div_lt_iff₀ (by norm_num)]
      nlinarith
    · right
      refine ⟨?_, ?_⟩
      · refine herr.trans_lt ?_
        rw [div_lt_iff₀ (by norm_num)]
        nlinarith
      · have hlarge' : (2 ^ 52 + 1 : ℚ) ≤ m := by exact_mod_cast hlarge
        have hpow : (2 : ℚ) ^ binaryExponent q ≤ 2 ^ 52 * ulp q := by
          have hle : (2 : ℚ) ^ (binaryExponent q - 52) ≤ ulp q :=
            zpow_le_zpow_right₀ (by norm_num) (le_max_left _ _)
          have he : (2 : ℚ) ^ binaryExponent q = 2 ^ 52 * 2 ^ (binaryExponent q - 52) := by
            have h52 : (2 ^ 52 : ℚ) = 2 ^ (52 : ℤ) := by norm_num
            rw [h52, ← zpow_add₀ (by norm_num)]
            congr 1
            ring
          rw [he]
          exact mul_le_mul_of_nonneg_left hle (by norm_num)
        nlinarith
  refine ⟨r, ?_⟩
  unfold candidate
  exact if_pos (beq_iff_eq.mpr hnear)

/-- The search returns a decimal that rounds back, whenever some listed precision has one. -/
theorem shortest_spec {q : ℚ} : {ns : List ℕ} → (∃ n ∈ ns, ∃ d, candidate q n = some d) →
    candidate q (shortest q ns).2 = some (shortest q ns).1
  | [], h => by
      obtain ⟨n, hn, -⟩ := h
      cases hn
  | n :: rest, h => by
      unfold shortest
      split
      · next d hd => exact hd
      · next hnone =>
        refine shortest_spec ?_
        obtain ⟨n', hn', d, hd⟩ := h
        rcases List.mem_cons.mp hn' with rfl | hmem
        · rw [hnone] at hd
          cases hd
        · exact ⟨n', hmem, d, hd⟩

/-- **The digits of a binary64 number determine it.** -/
theorem shortest_double {q : ℚ} (hq : 0 < q) (hd : doublePos q = q) :
    doublePos ((shortest q ((List.range 17).map (· + 1))).1
      / 10 ^ (((shortest q ((List.range 17).map (· + 1))).2 : ℤ) - 1 - decimalExponent q)) = q := by
  have h17 : 17 ∈ (List.range 17).map (· + 1) := by simp
  have h := candidate_spec (shortest_spec ⟨17, h17, candidate_seventeen hq hd⟩)
  rw [pow10_eq] at h
  exact h

/-- A decimal that rounds to a positive number is not zero. -/
theorem ne_zero_of_doublePos {x q : ℚ} (hq : 0 < q) (h : doublePos x = q) : x ≠ 0 := by
  rintro rfl
  have h0 : doublePos 0 = 0 := by decide +kernel
  linarith

/-! ## The length of a clock reading -/

/-- Rounding to binary64 moves a number from one on by a half of it at most. -/
theorem doublePos_between {q : ℚ} (hq : 1 ≤ q) : q / 2 ≤ doublePos q ∧ doublePos q ≤ 3 / 2 * q := by
  have hpos : 0 < q := by linarith
  obtain ⟨h1, h2⟩ := two_zpow_binaryExponent hpos
  have hu := ulp_pos q
  have hexp : 0 ≤ binaryExponent q := by
    by_contra hneg
    have hle : (2 : ℚ) ^ (binaryExponent q + 1) ≤ 2 ^ (0 : ℤ) :=
      zpow_le_zpow_right₀ (by norm_num) (by omega)
    rw [zpow_zero] at hle
    linarith
  have hunit : ulp q ≤ q := by
    refine le_trans (zpow_le_zpow_right₀ (by norm_num) ?_) h1
    omega
  have hround := abs_le.mp (abs_roundHalfEven_sub_le (q / ulp q))
  have hdiv : q / ulp q * ulp q = q := div_mul_cancel₀ q hu.ne'
  rw [doublePos_eq]
  constructor
  · nlinarith [hround.1]
  · nlinarith [hround.2]

/-- The search returns a candidate of a listed precision, or nothing. -/
theorem shortest_cases (q : ℚ) (ns : List ℕ) :
    shortest q ns = (0, 1) ∨ (shortest q ns).2 ∈ ns ∧ candidate q (shortest q ns).2
    = some (shortest q ns).1 := by
  induction ns with
  | nil => exact .inl rfl
  | cons n rest ih =>
    unfold shortest
    split
    · next d hd => exact .inr ⟨List.mem_cons_self .., hd⟩
    · rcases ih with h | ⟨hmem, h⟩
      · exact .inl h
      · exact .inr ⟨List.mem_cons_of_mem n hmem, h⟩

/-- A candidate has its digits, or one more where it rounded up to the next power of ten. -/
theorem candidate_digits {q : ℚ} (hq : 0 < q) {n d : ℕ} (hn : 0 < n) (h : candidate q n = some d) :
    n ≤ decimalLen d ∧ decimalLen d ≤ n + 1 := by
  obtain ⟨h1, h2⟩ := ten_zpow_decimalExponent hq
  set s := pow10 ((n : ℤ) - 1 - decimalExponent q) with hs
  have hspos : 0 < s := by
    rw [hs, pow10_eq]
    exact zpow_pos (by norm_num) _
  have hscale (e : ℤ) : (10 : ℚ) ^ (decimalExponent q + e) * s = 10 ^ ((n : ℤ) - 1 + e) := by
    rw [hs, pow10_eq, ← zpow_add₀ (by norm_num)]
    congr 1
    ring
  have hlow : (10 : ℚ) ^ (n - 1) ≤ q * s := by
    have he := hscale 0
    rw [add_zero, add_zero] at he
    have hcast : (10 : ℚ) ^ (n - 1) = 10 ^ ((n : ℤ) - 1) := by
      rw [← zpow_natCast]
      congr 1
      omega
    rw [hcast, ← he]
    exact mul_le_mul_of_nonneg_right h1 hspos.le
  have hhigh : q * s < (10 : ℚ) ^ n := by
    have he := hscale 1
    rw [sub_add_cancel] at he
    rw [← zpow_natCast, ← he]
    exact mul_lt_mul_of_pos_right h2 hspos
  -- All three candidates lie between the floor and its successor.
  have hbetween : ⌊q * s⌋ ≤ d ∧ (d : ℤ) ≤ ⌊q * s⌋ + 1 := by
    have hfloor : 0 ≤ ⌊q * s⌋ := Int.floor_nonneg.mpr (mul_pos hq hspos).le
    have hnear : ⌊q * s⌋ ≤ roundHalfEven (q * s) ∧ roundHalfEven (q * s) ≤ ⌊q * s⌋ + 1 := by
      unfold roundHalfEven
      dsimp only
      split_ifs <;> omega
    unfold candidate at h
    rw [← hs] at h
    dsimp only at h
    split at h
    · obtain rfl := Option.some.inj h
      omega
    · split at h
      · obtain rfl := Option.some.inj h
        omega
      · split at h
        · obtain rfl := Option.some.inj h
          omega
        · cases h
  have hfloorlow : (10 : ℤ) ^ (n - 1) ≤ ⌊q * s⌋ := Int.le_floor.mpr (by exact_mod_cast hlow)
  have hfloorhigh : ⌊q * s⌋ < (10 : ℤ) ^ n := Int.floor_lt.mpr (by exact_mod_cast hhigh)
  have hd1 : 10 ^ (n - 1) ≤ d := by exact_mod_cast hfloorlow.trans hbetween.1
  have hd2 : d ≤ 10 ^ n := by exact_mod_cast (by omega : (d : ℤ) ≤ 10 ^ n)
  constructor
  · by_contra hlt
    rcases Nat.lt_or_ge 1 n with h1n | h1n
    · have := (decimalLen_le_iff (n := d) (k := n - 1) (by omega)).mp (by omega)
      omega
    · have := decimalLen_pos d
      omega
  · rw [decimalLen_le_iff (by omega), pow_succ]
    have : 0 < 10 ^ n := by positivity
    omega

/-- Dropping trailing zeros does not lengthen the digits. -/
theorem length_significant_le (d : ℕ) : (significant d).length ≤ decimalLen d := by
  unfold significant
  split
  · exact decimalLen_pos d
  · rw [← length_decimal, List.length_reverse, ← @List.length_reverse _ (decimal d)]
    exact List.length_dropWhile_le ..

/-- A number of eighteen digits whose point lies within the first seventeen. -/
theorem length_layout_le {ds : Text} {point : ℤ} (hds : ds.length ≤ 18) (hlow : 0 ≤ point)
    (hhigh : point ≤ 17) :
    (layout ds point).length ≤ 24 := by
  have h1 : (lit "0.").length = 2 ∧ (lit ".0").length = 2 ∧ (lit ".").length = 1
    ∧ (lit "e").length = 1
    ∧ (lit "+").length = 1 ∧ (lit "0").length = 1 := by decide
  obtain ⟨l1, l2, l3, l4, l5, l6⟩ := h1
  unfold layout
  split
  · split
    · simp only [List.length_append, List.length_replicate, l1]
      omega
    · split
      · simp only [List.length_append, List.length_replicate, l2]
        omega
      · simp only [List.length_append, List.length_take, List.length_drop, l3]
        omega
  · have hpoint : point = 17 := by omega
    subst hpoint
    have hexp : decimal ((17 : ℤ) - 1).natAbs = lit "16" := by decide
    have hlen : (lit "16").length = 2 := by decide
    dsimp only
    rw [hexp, if_neg (by decide), if_neg (by decide)]
    rcases ds with _ | ⟨d, _ | ⟨d', rest⟩⟩
    · simp [l4, l5, hlen]
    · simp [l4, l5, hlen]
    · simp only [List.length_append, List.length_cons, l3, l4, l5, hlen] at hds ⊢
      omega

/-- **A clock reading is short**, from the first second on for thirty million years. -/
theorem length_ratRepr_le {q : ℚ} (hlow : 1 ≤ q) (hhigh : q ≤ 10 ^ 15) :
    (ratRepr q).length ≤ 24 := by
  obtain ⟨h1, h2⟩ := doublePos_between hlow
  have hpos : 0 < doublePos q := by linarith
  obtain ⟨h3, h4⟩ := ten_zpow_decimalExponent hpos
  have hexplow : -1 ≤ decimalExponent (doublePos q) := by
    by_contra hlt
    have hle : (10 : ℚ) ^ (decimalExponent (doublePos q) + 1) ≤ 10 ^ (-1 : ℤ) :=
      zpow_le_zpow_right₀ (by norm_num) (by omega)
    norm_num at hle
    linarith
  have hexphigh : decimalExponent (doublePos q) ≤ 15 := by
    by_contra hgt
    have hle : (10 : ℚ) ^ (16 : ℤ) ≤ 10 ^ decimalExponent (doublePos q) :=
      zpow_le_zpow_right₀ (by norm_num) (by omega)
    norm_num at hle hhigh
    linarith
  rw [ratRepr, if_neg (by linarith), if_pos (by linarith)]
  unfold reprPos
  generalize hfound : shortest (doublePos q) ((List.range 17).map (· + 1)) = found
  obtain ⟨d, n⟩ := found
  have hdigits : n ≤ decimalLen d ∧ decimalLen d ≤ n + 1 ∧ n ≤ 17 := by
    have hcases := shortest_cases (doublePos q) ((List.range 17).map (· + 1))
    rw [hfound] at hcases
    rcases hcases with h | ⟨hmem, hc⟩
    · obtain ⟨rfl, rfl⟩ := Prod.mk.inj h
      decide
    · obtain ⟨k, hk, hkn⟩ := List.mem_map.mp hmem
      have hk17 := List.mem_range.mp hk
      dsimp only at hkn hc
      obtain ⟨h5, h6⟩ := candidate_digits hpos (by omega) hc
      exact ⟨h5, h6, by omega⟩
  have hsig := length_significant_le d
  dsimp only
  exact length_layout_le (by omega) (by omega) (by omega)

end Py
