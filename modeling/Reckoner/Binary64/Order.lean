import Reckoner.Binary64.Magnitude

/-!
# The order of magnitudes

Bit patterns are ordered like their values. Read `units_le_iff` first: `index` is the inverse of
`units` from below, which is all that rounding and printing need to know about the format.
-/

namespace Reckoner.Binary64

/-- The value of a pattern that is given by its exponent and its offset in the binade. -/
theorem units_offset (exponent offset : Nat) (h : offset < binade) :
    units ((exponent + 1) * binade + offset) = (binade + offset) * Nat.pow 2 exponent := by
  have hdiv : ((exponent + 1) * binade + offset) / binade = exponent + 1 := by
    unfold binade at *
    omega
  have hmod : ((exponent + 1) * binade + offset) % binade = offset := by
    unfold binade at *
    omega
  have hge : ¬ (exponent + 1) * binade + offset < binade := by
    unfold binade
    omega
  simp only [units, if_neg hge, hdiv, hmod, Nat.add_sub_cancel]

/-- A pattern from the first normal one on has an exponent and an offset. -/
theorem exists_offset {bits : Nat} (h : binade ≤ bits) :
    ∃ exponent offset, offset < binade ∧ bits = (exponent + 1) * binade + offset := by
  refine ⟨bits / binade - 1, bits % binade, Nat.mod_lt _ (by decide), ?_⟩
  unfold binade at *
  omega

/-- Below the second binade a pattern is its own value. -/
theorem units_eq_self {bits : Nat} (h : bits < 2 * binade) : units bits = bits := by
  by_cases hlt : bits < binade
  · simp [units, hlt]
  · have hoffset : bits - binade < binade := by omega
    have hbits : (0 + 1) * binade + (bits - binade) = bits := by omega
    have heq := units_offset 0 (bits - binade) hoffset
    have hpow : Nat.pow 2 0 = 1 := rfl
    rw [hbits, hpow] at heq
    omega

/-- A power of two is at least twice as large as every smaller one. -/
theorem double_pow_le {low high : Nat} (h : low < high) :
    2 * Nat.pow 2 low ≤ Nat.pow 2 high := by
  have hle : 2 ^ (low + 1) ≤ 2 ^ high := Nat.pow_le_pow_right (by decide) h
  rw [Nat.pow_succ] at hle
  simp only [Nat.pow_eq]
  omega

/-- The exponent and the leading digits of a number of units that has more than 53 of them. -/
theorem index_digits {n : Nat} (h : 2 * binade ≤ n) :
    ∃ shift digits, index n = shift * binade + digits ∧ binade ≤ digits ∧ digits < 2 * binade ∧
      digits = n / Nat.pow 2 shift ∧ binade * Nat.pow 2 shift ≤ n ∧
      n < 2 * binade * Nat.pow 2 shift := by
  have hne : n ≠ 0 := by
    unfold binade at h
    omega
  have hlog : 53 ≤ n.log2 := (Nat.le_log2 hne).2 (by unfold binade at h; omega)
  have hsplit : binade * Nat.pow 2 (n.log2 - 52) = 2 ^ n.log2 := by
    have hbinade : binade = 2 ^ 52 := by decide
    rw [hbinade, Nat.pow_eq, ← Nat.pow_add]
    congr 1
    omega
  have hlow : binade * Nat.pow 2 (n.log2 - 52) ≤ n := hsplit ▸ Nat.log2_self_le hne
  have hhigh : n < 2 * binade * Nat.pow 2 (n.log2 - 52) := by
    have hlt : n < 2 ^ (n.log2 + 1) := Nat.lt_log2_self
    rw [Nat.pow_succ, ← hsplit] at hlt
    rw [Nat.mul_assoc]
    omega
  have hpos : 0 < Nat.pow 2 (n.log2 - 52) := Nat.two_pow_pos _
  exact ⟨n.log2 - 52, n / Nat.pow 2 (n.log2 - 52), rfl, (Nat.le_div_iff_mul_le hpos).2 hlow,
    (Nat.div_lt_iff_lt_mul hpos).2 hhigh, rfl, hlow, hhigh⟩

/-- Up to 53 digits a number of units is the index of itself. -/
theorem index_eq_self {n : Nat} (h : n < 2 * binade) : index n = n := by
  have hlog : n.log2 - 52 = 0 := by
    by_cases hne : n = 0
    · simp [hne]
    · have := (Nat.log2_lt hne).2 (show n < 2 ^ 53 by unfold binade at h; omega)
      omega
  simp [index, hlog]

/-- A pattern has a value of at most `n` units exactly when it is not after the index of `n`. -/
theorem units_le_iff {bits n : Nat} : units bits ≤ n ↔ bits ≤ index n := by
  by_cases hbits : bits < binade
  · have hunits : units bits = bits := by simp [units, hbits]
    by_cases hn : n < 2 * binade
    · rw [hunits, index_eq_self hn]
    · obtain ⟨shift, digits, hindex, hdigits, -⟩ := index_digits (Nat.le_of_not_lt hn)
      rw [hunits, hindex]
      unfold binade at *
      omega
  · obtain ⟨exponent, offset, hoffset, rfl⟩ := exists_offset (Nat.le_of_not_lt hbits)
    rw [units_offset exponent offset hoffset]
    by_cases hn : n < 2 * binade
    · rw [index_eq_self hn]
      by_cases hexp : exponent = 0
      · have hpow : Nat.pow 2 0 = 1 := rfl
        subst hexp
        rw [hpow]
        omega
      · have hpow := double_pow_le (Nat.pos_of_ne_zero hexp)
        have hmul : (binade + offset) * 2 ≤ (binade + offset) * Nat.pow 2 exponent :=
          Nat.mul_le_mul_left _ hpow
        unfold binade at *
        omega
    · obtain ⟨shift, digits, hindex, hlow, hhigh, hdigits, hle, hlt⟩ :=
        index_digits (Nat.le_of_not_lt hn)
      rw [hindex]
      rcases Nat.lt_trichotomy exponent shift with h | h | h
      · have hpow := Nat.mul_le_mul_left binade (double_pow_le h)
        have hmul : (binade + offset) * Nat.pow 2 exponent ≤
            2 * binade * Nat.pow 2 exponent := Nat.mul_le_mul_right _ (by omega)
        have hcomm : 2 * binade * Nat.pow 2 exponent = binade * (2 * Nat.pow 2 exponent) := by
          rw [Nat.mul_comm 2 binade, Nat.mul_assoc]
        unfold binade at *
        omega
      · subst h
        have hpos : 0 < Nat.pow 2 exponent := Nat.two_pow_pos _
        rw [← Nat.le_div_iff_mul_le hpos, ← hdigits]
        unfold binade at *
        omega
      · have hpow := Nat.mul_le_mul_left binade (double_pow_le h)
        have hmul : binade * Nat.pow 2 exponent ≤ (binade + offset) * Nat.pow 2 exponent :=
          Nat.mul_le_mul_right _ (by omega)
        have hcomm : 2 * binade * Nat.pow 2 shift = binade * (2 * Nat.pow 2 shift) := by
          rw [Nat.mul_comm 2 binade, Nat.mul_assoc]
        unfold binade at *
        omega

/-- The next pattern has a larger value. -/
theorem units_lt_succ (bits : Nat) : units bits < units (bits + 1) := by
  by_cases hsmall : bits + 1 < 2 * binade
  · rw [units_eq_self hsmall, units_eq_self (by omega)]
    omega
  · obtain ⟨exponent, offset, hoffset, heq⟩ :=
      exists_offset (show binade ≤ bits + 1 by omega)
    rw [heq, units_offset exponent offset hoffset]
    have hpos : 0 < Nat.pow 2 exponent := Nat.two_pow_pos _
    cases offset with
    | zero =>
      cases exponent with
      | zero =>
        unfold binade at *
        omega
      | succ exponent =>
        have hbits : bits = (exponent + 1) * binade + (binade - 1) := by
          unfold binade at *
          omega
        have hpow : 0 < Nat.pow 2 exponent := Nat.two_pow_pos _
        have hdouble : Nat.pow 2 (exponent + 1) = Nat.pow 2 exponent * 2 := rfl
        rw [hbits, units_offset exponent (binade - 1) (by decide), hdouble]
        unfold binade
        omega
    | succ offset =>
      have hbits : bits = (exponent + 1) * binade + offset := by omega
      rw [hbits, units_offset exponent offset (by omega)]
      exact Nat.mul_lt_mul_of_pos_right (by omega) hpos

/-- Every pattern is the index of its own value. -/
theorem index_units (bits : Nat) : index (units bits) = bits := by
  apply Nat.le_antisymm
  · have hnot : ¬ bits + 1 ≤ index (units bits) := fun h ↦
      Nat.not_le_of_lt (units_lt_succ bits) (units_le_iff.2 h)
    omega
  · exact units_le_iff.1 (Nat.le_refl _)

end Reckoner.Binary64
