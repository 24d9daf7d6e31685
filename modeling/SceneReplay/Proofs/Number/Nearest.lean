import Mathlib.Tactic.Ring
import SceneReplay.Number.Shortest

/-!
# Exact quotients and the nearest double

Rounding a quotient to the nearest double does not depend on how the quotient is
written: a common factor of numerator and denominator changes nothing
(`SceneReplay.Binary64.nearestRank_mul`). A quotient that *is* the value of some rank
is rounded to that rank (`SceneReplay.Binary64.nearestRank_of_units`).

From the second fact follows that the exact value of a rank reads back
(`SceneReplay.Decimal.toBinary64_exact`), and since the search for a short numeral
tests every candidate, that the shortest numeral does
(`SceneReplay.Decimal.toBinary64_shortest`). The value of a numeral without its sign
does not depend on the sign (`SceneReplay.Decimal.exists_rank`), so it reads back with
either.
-/

namespace SceneReplay

namespace Binary64

/-! ### Rounding quotients -/

/-- A common factor changes nothing. -/
theorem roundDiv_mul (num den : Nat) {k : Nat} (hk : 0 < k) :
    roundDiv (num * k) (den * k) = roundDiv num den := by
  have hless : ∀ a b : Nat, a * k < b * k ↔ a < b := fun a b => Nat.mul_lt_mul_right hk
  unfold roundDiv
  simp only [Nat.mul_div_mul_right num den hk, Nat.mul_mod_mul_right, ← Nat.mul_assoc, hless]

/-- An exact quotient is its own rounding. -/
theorem roundDiv_of_dvd (q : Nat) {den : Nat} (hden : 0 < den) :
    roundDiv (q * den) den = q := by
  unfold roundDiv
  simp [Nat.mul_div_cancel q hden, hden]

theorem nearestRank_mul (num den : Nat) {k : Nat} (hk : 0 < k) :
    nearestRank (num * k) (den * k) = nearestRank num den := by
  unfold nearestRank
  simp only [Nat.mul_right_comm num k unitsPerOne, Nat.mul_div_mul_right _ _ hk]
  rw [Nat.mul_right_comm den k, roundDiv_mul _ _ hk]

/-! ### Values of ranks -/

theorem unitsPerOne_pos : 0 < unitsPerOne := by
  unfold unitsPerOne
  generalize 1074 = n
  exact Nat.two_pow_pos n

theorem units_of_lt {rank : Nat} (h : rank < 2 ^ 52) : units rank = rank :=
  if_pos h

/-- From the second block of ranks on, a value is a significand of fifty-three binary
digits times a power of two. -/
theorem units_of_le {rank : Nat} (h : 2 ^ 52 ≤ rank) :
    ∃ block significand, rank = block * 2 ^ 52 + significand ∧ 2 ^ 52 ≤ significand ∧
      significand < 2 ^ 53 ∧ units rank = significand * 2 ^ block := by
  refine ⟨rank / 2 ^ 52 - 1, 2 ^ 52 + rank % 2 ^ 52, ?_, ?_, ?_, ?_⟩
  · omega
  · omega
  · omega
  · exact if_neg (Nat.not_lt.2 h)

/-- The number of binary digits of a product with a power of two. -/
theorem log2_mul_pow {significand : Nat} (hlow : 2 ^ 52 ≤ significand)
    (hhigh : significand < 2 ^ 53) (block : Nat) :
    (significand * 2 ^ block).log2 = 52 + block := by
  have hpos : 0 < 2 ^ block := Nat.two_pow_pos block
  have hne : significand * 2 ^ block ≠ 0 := by
    refine Nat.mul_ne_zero ?_ hpos.ne'
    omega
  refine Nat.le_antisymm ?_ ?_
  · refine Nat.le_of_lt_succ ((Nat.log2_lt hne).2 ?_)
    calc significand * 2 ^ block < 2 ^ 53 * 2 ^ block := Nat.mul_lt_mul_of_pos_right hhigh hpos
      _ = 2 ^ (52 + block).succ := by rw [← Nat.pow_add]; congr 1; omega
  · refine (Nat.le_log2 hne).2 ?_
    calc 2 ^ (52 + block) = 2 ^ 52 * 2 ^ block := Nat.pow_add 2 52 block
      _ ≤ significand * 2 ^ block := Nat.mul_le_mul_right _ hlow

/-- **A quotient that is the value of a rank is rounded to that rank.** -/
theorem nearestRank_of_units {num den rank : Nat} (hden : 0 < den)
    (h : num * unitsPerOne = units rank * den) : nearestRank num den = rank := by
  change ((num * unitsPerOne / den).log2 - 52) * 2 ^ 52 + roundDiv (num * unitsPerOne)
    (den * 2 ^ ((num * unitsPerOne / den).log2 - 52)) = rank
  rw [h, Nat.mul_div_cancel _ hden]
  by_cases hrank : rank < 2 ^ 52
  · -- In the first block the value is the rank itself.
    have hlog : rank.log2 - 52 = 0 := by
      rcases Nat.eq_zero_or_pos rank with rfl | hpos
      · rfl
      · have := (Nat.log2_lt hpos.ne').2 hrank
        omega
    rw [units_of_lt hrank, hlog, Nat.pow_zero, Nat.mul_one, roundDiv_of_dvd rank hden]
    omega
  · obtain ⟨block, significand, hsum, hlow, hhigh, hunits⟩ := units_of_le (Nat.not_lt.1 hrank)
    have hblock : (significand * 2 ^ block).log2 - 52 = block := by
      rw [log2_mul_pow hlow hhigh block]
      omega
    have hpos : 0 < den * 2 ^ block := Nat.mul_pos hden (Nat.two_pow_pos block)
    have hnum : significand * 2 ^ block * den = significand * (den * 2 ^ block) := by ring
    rw [hunits, hblock, hnum, roundDiv_of_dvd significand hpos, hsum]

/-- The same with a sign: the quotient is read as the finite number of that rank. -/
theorem ofRatio_of_units (negative : Bool) {num den : Nat} {rank : Fin rankLimit}
    (hden : 0 < den) (h : num * unitsPerOne = units rank * den) :
    ofRatio negative num den = .finite negative rank := by
  rw [ofRatio, nearestRank_of_units hden h, ofRank]
  simp

/-- Only zero has no units. -/
theorem units_eq_zero {rank : Nat} : units rank = 0 ↔ rank = 0 := by
  by_cases hrank : rank < 2 ^ 52
  · rw [units_of_lt hrank]
  · obtain ⟨block, significand, hsum, hlow, -, hunits⟩ := units_of_le (Nat.not_lt.1 hrank)
    rw [hunits]
    constructor
    · intro h
      rcases Nat.mul_eq_zero.1 h with h | h
      · omega
      · exact absurd h (Nat.two_pow_pos block).ne'
    · intro h
      omega

end Binary64

namespace Decimal

/-! ### The value of a numeral -/

/-- **The sign of a numeral is the sign of its value**, and has no other influence. -/
theorem exists_rank (d : Decimal) : ∃ rank, ∀ negative,
    d.toBinary64 negative = Binary64.ofRank negative rank := by
  have hinfinite : ∀ negative, Binary64.infinite negative
      = Binary64.ofRank negative Binary64.rankLimit := by
    intro negative
    simp [Binary64.ofRank]
  by_cases hdigits : d.digits = 0
  · exact ⟨0, fun negative => by simp [toBinary64, hdigits]⟩
  · cases hexp : d.exponent with
    | ofNat e =>
      by_cases he : 400 < e
      · exact ⟨Binary64.rankLimit, fun negative => by
          simp only [toBinary64, hdigits, hexp, he, if_true, if_false, hinfinite]⟩
      · exact ⟨_, fun negative => by
          simp only [toBinary64, hdigits, hexp, he, if_false, Binary64.ofRatio]; rfl⟩
    | negSucc e =>
      by_cases he : d.digits.log2 + 400 < e
      · exact ⟨0, fun negative => by
          simp only [toBinary64, hdigits, hexp, he, if_true, if_false]⟩
      · exact ⟨_, fun negative => by
          simp only [toBinary64, hdigits, hexp, he, if_false, Binary64.ofRatio]; rfl⟩

theorem ofRank_inj {rank other : Nat} (hrank : rank < Binary64.rankLimit)
    (h : Binary64.ofRank false other = Binary64.ofRank false rank) : other = rank := by
  unfold Binary64.ofRank at h
  rw [dif_pos hrank] at h
  split at h
  · simpa using h
  · cases h

/-- What reads back without a sign reads back with one. -/
theorem toBinary64_of_false {d : Decimal} {rank : Nat} (hrank : rank < Binary64.rankLimit)
    (h : d.toBinary64 false = Binary64.ofRank false rank) (negative : Bool) :
    d.toBinary64 negative = Binary64.ofRank negative rank := by
  obtain ⟨other, hother⟩ := d.exists_rank
  obtain rfl := ofRank_inj hrank ((hother false).symm.trans h)
  exact hother negative

/-! ### The shortest numeral -/

/-- A value of `n` binary places is read back from its `n` decimal places: these are its units
times a power of five. -/
theorem toBinary64_of_places {d : Decimal} {rank n m : Nat} (hne : rank ≠ 0) (hn : n = m + 1)
    (hone : Binary64.unitsPerOne = Nat.pow 2 n)
    (hdigits : d.digits = Binary64.units rank * Nat.pow 5 n) (hexp : d.exponent = .negSucc m) :
    d.toBinary64 false = Binary64.ofRank false rank := by
  have hunits : Binary64.units rank ≠ 0 := fun h => hne (Binary64.units_eq_zero.1 h)
  have hfive : Nat.pow 5 n ≠ 0 := (Nat.pow_pos (by decide)).ne'
  have hdigits' : d.digits ≠ 0 := hdigits ▸ Nat.mul_ne_zero hunits hfive
  have hlarge : ¬ d.digits.log2 + 400 < m := by
    -- The digits are at least `5 ^ n`.
    have hpow : 2 ^ n ≤ Nat.pow 5 n := Nat.pow_le_pow_left (by decide) n
    have hle : Nat.pow 5 n ≤ d.digits :=
      hdigits ▸ Nat.le_mul_of_pos_left _ (Nat.pos_of_ne_zero hunits)
    have := (Nat.le_log2 hdigits').2 (Nat.le_trans hpow hle)
    omega
  have hratio : d.digits * Binary64.unitsPerOne = Binary64.units rank * 10 ^ (m + 1) := by
    rw [hdigits, hone, hn, Nat.mul_assoc]
    exact congrArg (Binary64.units rank * ·) (Nat.mul_pow 5 2 (m + 1)).symm
  have hrank : Binary64.nearestRank d.digits (Nat.pow 10 (m + 1)) = rank :=
    Binary64.nearestRank_of_units (Nat.pow_pos (by decide)) hratio
  simp only [toBinary64, hdigits', hexp, hlarge, if_false, Binary64.ofRatio, hrank]

/-- **The exact value of a rank reads back.** -/
theorem toBinary64_exact {rank : Nat} (hne : rank ≠ 0) :
    (exact rank).toBinary64 false = Binary64.ofRank false rank := by
  -- The number of places is named, so that no power of this size is computed.
  obtain ⟨n, hn⟩ : ∃ n, n = 1074 := ⟨_, rfl⟩
  have hone : Binary64.unitsPerOne = Nat.pow 2 n := by
    unfold Binary64.unitsPerOne
    rw [← hn]
  have hdigits : (exact rank).digits = Binary64.units rank * Nat.pow 5 n := by
    unfold exact
    rw [← hn]
  exact toBinary64_of_places hne hn hone hdigits rfl

theorem toBinary64_of_onGrid? {rank : Nat} {s : Int} {d : Decimal}
    (h : onGrid? rank s = some d) : d.toBinary64 false = Binary64.ofRank false rank := by
  unfold onGrid? at h
  simpa using List.find?_some h

theorem toBinary64_of_search {rank fuel : Nat} {s : Int} {d : Decimal}
    (h : search rank fuel s = some d) : d.toBinary64 false = Binary64.ofRank false rank := by
  induction fuel generalizing s with
  | zero => cases h
  | succ fuel ih =>
    rw [search] at h
    cases hgrid : onGrid? rank s with
    | some d' =>
      rw [hgrid] at h
      cases h
      exact toBinary64_of_onGrid? hgrid
    | none =>
      rw [hgrid] at h
      exact ih h

/-- **The shortest numeral reads back.** -/
theorem toBinary64_shortest {rank : Nat} (hrank : rank < Binary64.rankLimit) (hne : rank ≠ 0)
    (negative : Bool) : (shortest rank).toBinary64 negative = Binary64.ofRank negative rank := by
  refine toBinary64_of_false hrank ?_ negative
  unfold shortest
  cases hsearch : search rank 20 (gridAbove rank) with
  | some d => exact toBinary64_of_search hsearch
  | none => exact toBinary64_exact hne

/-! ### Other ways to write a numeral -/

/-- A zero behind the digits, and one place more, change nothing. -/
theorem toBinary64_place (negative : Bool) (digits : Nat) {e : Nat} (he : e ≤ 400) :
    toBinary64 negative ⟨digits * 10 ^ e * 10, -1⟩ = toBinary64 negative ⟨digits, e⟩ := by
  by_cases hdigits : digits = 0
  · simp [toBinary64, hdigits]
  · have hne : digits * 10 ^ e * 10 ≠ 0 :=
      Nat.mul_ne_zero (Nat.mul_ne_zero hdigits (Nat.pow_pos (by decide)).ne') (by decide)
    have hright : toBinary64 negative ⟨digits, e⟩
        = Binary64.ofRatio negative (digits * 10 ^ e) 1 := by
      change (if digits = 0 then _ else if 400 < e then _ else _) = _
      exact (if_neg hdigits).trans (if_neg (Nat.not_lt.2 he))
    have hleft : toBinary64 negative ⟨digits * 10 ^ e * 10, -1⟩
        = Binary64.ofRatio negative (digits * 10 ^ e * 10) (1 * 10) := by
      have hten : 10 ^ (0 + 1) = 1 * 10 := by decide
      change (if digits * 10 ^ e * 10 = 0 then _ else
        if (digits * 10 ^ e * 10).log2 + 400 < 0 then _ else _) = _
      refine (if_neg hne).trans ((if_neg (Nat.not_lt_zero _)).trans ?_)
      exact congrArg (Binary64.ofRatio negative (digits * 10 ^ e * 10)) hten
    rw [hleft, hright, Binary64.ofRatio, Binary64.ofRatio,
      Binary64.nearestRank_mul _ _ (by decide)]

end Decimal

end SceneReplay
