import Mathlib.Data.Int.Log
import Mathlib.Data.Rat.Floor
import Mathlib.Tactic.Linarith
import Mathlib.Tactic.Positivity
import Mathlib.Tactic.FieldSimp
import Mathlib.Tactic.NormNum

/-! Rational numbers rounded to doubles, to the nearest and half to even. -/

namespace Double

/-- The nearest integer, the even one of two that are equally near. -/
def nearest (q : ℚ) : ℤ :=
  if q < ⌊q⌋ + 1 / 2 then ⌊q⌋
  else if ⌊q⌋ + 1 / 2 < q then ⌊q⌋ + 1
  else if 2 ∣ ⌊q⌋ then ⌊q⌋ else ⌊q⌋ + 1

/-- The exponent of the last of the 53 bits, which underflow keeps from falling further. -/
def exponent (q : ℚ) : ℤ := max (Int.log 2 |q| - 52) (-1074)

/-- The double nearest to a number that is in the range of the doubles. -/
def ofRat (q : ℚ) : ℚ := nearest (q / 2 ^ exponent q) * 2 ^ exponent q

variable {q : ℚ} {k : ℤ}

theorem nearest_cases (q : ℚ) :
    (nearest q = ⌊q⌋ ∧ q ≤ ⌊q⌋ + 1 / 2) ∨ (nearest q = ⌊q⌋ + 1 ∧ ⌊q⌋ + 1 / 2 ≤ q) := by
  unfold nearest
  by_cases hlow : q < ⌊q⌋ + 1 / 2
  · rw [if_pos hlow]
    exact .inl ⟨rfl, hlow.le⟩
  · have hge := not_lt.mp hlow
    rw [if_neg hlow]
    by_cases hhigh : ⌊q⌋ + 1 / 2 < q
    · rw [if_pos hhigh]
      exact .inr ⟨rfl, hge⟩
    · rw [if_neg hhigh]
      by_cases heven : 2 ∣ ⌊q⌋
      · rw [if_pos heven]
        exact .inl ⟨rfl, not_lt.mp hhigh⟩
      · rw [if_neg heven]
        exact .inr ⟨rfl, hge⟩

theorem nearest_le (h : q ≤ k) : nearest q ≤ k := by
  rcases nearest_cases q with ⟨hn, -⟩ | ⟨hn, hq⟩
  · rw [hn]
    exact_mod_cast (Int.floor_le q).trans h
  · rw [hn]
    have hlt : (⌊q⌋ : ℚ) < k := by linarith
    exact_mod_cast hlt

theorem sub_half_le_nearest (q : ℚ) : q - 1 / 2 ≤ nearest q := by
  rcases nearest_cases q with ⟨hn, hq⟩ | ⟨hn, -⟩
  · rw [hn]
    linarith
  · have hfloor := (Int.lt_floor_add_one q).le
    rw [hn]
    push_cast
    linarith

theorem scale_pos (q : ℚ) : (0 : ℚ) < 2 ^ exponent q := zpow_pos (by norm_num) _

/-- Rounding takes away half a unit in the last place at most. -/
theorem sub_half_ulp_le_ofRat (q : ℚ) : q - 2 ^ exponent q / 2 ≤ ofRat q := by
  have hpos := scale_pos q
  have hh := mul_le_mul_of_nonneg_right (sub_half_le_nearest (q / 2 ^ exponent q)) hpos.le
  have hcancel : (q / 2 ^ exponent q - 1 / 2) * 2 ^ exponent q = q - 2 ^ exponent q / 2 := by
    field_simp
  rw [hcancel] at hh
  exact hh

theorem le_nearest (h : k ≤ q) : k ≤ nearest q := by
  have hfloor := Int.le_floor.mpr h
  rcases nearest_cases q with ⟨hn, -⟩ | ⟨hn, -⟩
  · rw [hn]
    exact hfloor
  · rw [hn]
    omega

theorem nearest_mono {r : ℚ} (h : q ≤ r) : nearest q ≤ nearest r := by
  rcases lt_or_ge q (⌊q⌋ + 1 / 2) with hlow | hlow
  · have hq : nearest q = ⌊q⌋ := by rw [nearest, if_pos hlow]
    rw [hq]
    exact le_nearest ((Int.floor_le q).trans h)
  rcases lt_or_ge (⌊q⌋ + 1 / 2 : ℚ) r with hhigh | hhigh
  · have hq : nearest q ≤ ⌊q⌋ + 1 := nearest_le (by exact_mod_cast (Int.lt_floor_add_one q).le)
    refine hq.trans ?_
    rcases nearest_cases r with ⟨-, hr⟩ | ⟨hr, -⟩
    · -- the middle above `q` is passed, so the floor below `r` is a higher one
      have hlt : (⌊q⌋ : ℚ) < ⌊r⌋ := by linarith
      have hfloor : ⌊q⌋ < ⌊r⌋ := by exact_mod_cast hlt
      exact le_nearest ((by exact_mod_cast hfloor : ((⌊q⌋ + 1 : ℤ) : ℚ) ≤ ⌊r⌋).trans (Int.floor_le r))
    · rw [hr]
      have := Int.floor_le_floor h
      omega
  · have heq : q = r := le_antisymm h (hhigh.trans hlow)
    rw [heq]

/-- Rounding does not pass a whole number of units in the last place. -/
theorem ofRat_le_units (h : q ≤ k * 2 ^ exponent q) : ofRat q ≤ k * 2 ^ exponent q := by
  have hpos := scale_pos q
  have hnear : (nearest (q / 2 ^ exponent q) : ℚ) ≤ k := by
    exact_mod_cast nearest_le ((div_le_iff₀ hpos).mpr h)
  exact mul_le_mul_of_nonneg_right hnear hpos.le

theorem units_le_ofRat (h : k * 2 ^ exponent q ≤ q) : k * 2 ^ exponent q ≤ ofRat q := by
  have hpos := scale_pos q
  have hnear : (k : ℚ) ≤ nearest (q / 2 ^ exponent q) := by
    exact_mod_cast le_nearest ((le_div_iff₀ hpos).mpr h)
  exact mul_le_mul_of_nonneg_right hnear hpos.le

theorem zpow_eq_units {n : ℤ} (hn : exponent q ≤ n) : ∃ k : ℤ, (2 : ℚ) ^ n = k * 2 ^ exponent q := by
  obtain ⟨m, hm⟩ := Int.eq_ofNat_of_zero_le (Int.sub_nonneg.mpr hn)
  refine ⟨2 ^ m, ?_⟩
  push_cast
  rw [← zpow_natCast, ← hm, ← zpow_add₀ (by norm_num), Int.sub_add_cancel]

/-- Rounding does not pass an integer where every integer is a double. -/
theorem ofRat_le (he : exponent q ≤ 0) (h : q ≤ k) : ofRat q ≤ k := by
  obtain ⟨one, hone⟩ := zpow_eq_units he
  rw [zpow_zero] at hone
  have hunits : (k : ℚ) = (k * one : ℤ) * 2 ^ exponent q := by
    push_cast
    rw [mul_assoc, ← hone, mul_one]
  rw [hunits] at h ⊢
  exact ofRat_le_units h

theorem exponent_nonpos (hq : 0 < q) (h : q < 2 ^ 53) : exponent q ≤ 0 := by
  have hlog : Int.log 2 q < 53 := (Int.lt_zpow_iff_log_lt (by norm_num) hq).mp (by exact_mod_cast h)
  unfold exponent
  rw [abs_of_pos hq]
  omega

/-- A unit in the last place is small beside a number that is not subnormal. -/
theorem ulp_le (hq : 0 < q) (hnormal : -1022 ≤ Int.log 2 q) : 2 ^ exponent q * 2 ^ 52 ≤ q := by
  have hexp : exponent q = Int.log 2 q - 52 := by
    unfold exponent
    rw [abs_of_pos hq]
    omega
  have hpow : (2 : ℚ) ^ exponent q * 2 ^ 52 = 2 ^ Int.log 2 q := by
    rw [hexp, ← zpow_natCast, ← zpow_add₀ (by norm_num)]
    congr 1
    omega
  rw [hpow]
  exact Int.zpow_log_le_self (by norm_num) hq

theorem ofRat_le_zpow {n : ℤ} (hn : exponent q ≤ n) (h : q ≤ 2 ^ n) : ofRat q ≤ 2 ^ n := by
  obtain ⟨k, hk⟩ := zpow_eq_units hn
  rw [hk] at h ⊢
  exact ofRat_le_units h

theorem zpow_le_ofRat {n : ℤ} (hn : exponent q ≤ n) (h : 2 ^ n ≤ q) : 2 ^ n ≤ ofRat q := by
  obtain ⟨k, hk⟩ := zpow_eq_units hn
  rw [hk] at h ⊢
  exact units_le_ofRat h

theorem ofRat_nonneg (hq : 0 ≤ q) : 0 ≤ ofRat q := by
  have hzero : ((0 : ℤ) : ℚ) * 2 ^ exponent q ≤ q := by simpa using hq
  simpa using units_le_ofRat hzero

/-- Rounding keeps the order. -/
theorem ofRat_mono {r : ℚ} (hq : 0 ≤ q) (h : q ≤ r) : ofRat q ≤ ofRat r := by
  rcases hq.eq_or_lt with rfl | hq
  · have hzero : ofRat 0 = 0 := by simp [ofRat, nearest]
    rw [hzero]
    exact ofRat_nonneg h
  have hr := hq.trans_le h
  have hlog : Int.log 2 q ≤ Int.log 2 r := Int.log_mono_right hq h
  have hexp : exponent q ≤ exponent r := by
    unfold exponent
    rw [abs_of_pos hq, abs_of_pos hr]
    omega
  rcases hexp.lt_or_eq with hlt | heq
  · -- a power of two lies between them
    have hr' : exponent r = Int.log 2 r - 52 ∧ Int.log 2 q < Int.log 2 r := by
      unfold exponent at hlt ⊢
      rw [abs_of_pos hq, abs_of_pos hr] at *
      omega
    have hbelow : q ≤ 2 ^ Int.log 2 r := by
      refine (Int.lt_zpow_succ_log_self (b := 2) (by norm_num) q).le.trans ?_
      exact zpow_le_zpow_right₀ (by norm_num) (by omega)
    calc ofRat q ≤ 2 ^ Int.log 2 r := ofRat_le_zpow (by omega) hbelow
      _ ≤ ofRat r := zpow_le_ofRat (by omega) (Int.zpow_log_le_self (by norm_num) hr)
  · have hpos := scale_pos r
    unfold ofRat
    rw [heq]
    have hnear : (nearest (q / 2 ^ exponent r) : ℚ) ≤ nearest (r / 2 ^ exponent r) := by
      exact_mod_cast nearest_mono (div_le_div_of_nonneg_right h hpos.le)
    exact mul_le_mul_of_nonneg_right hnear hpos.le

/-- Rounding does not pass an integer that is a double. -/
theorem ofRat_le_int (hq : 0 ≤ q) (hk : 0 < k) (hsmall : k < 2 ^ 53) (h : q ≤ k) : ofRat q ≤ k := by
  have hk0 : (0 : ℚ) < k := by exact_mod_cast hk
  have hk53 : (k : ℚ) < 2 ^ 53 := by exact_mod_cast hsmall
  exact (ofRat_mono hq h).trans (ofRat_le (exponent_nonpos hk0 hk53) le_rfl)

/-- The upward rounding of a quotient is not changed by rounding the quotient to a double. -/
theorem ceil_ofRat_div {n d : ℕ} (hd : 0 < d) (hdn : d ≤ n) (hn : n < 2 ^ 53) :
    ⌈ofRat ((n : ℚ) / d)⌉ = ⌈(n : ℚ) / d⌉ := by
  have hd0 : (0 : ℚ) < d := by exact_mod_cast hd
  have hone : (1 : ℚ) ≤ n / d := by
    rw [le_div_iff₀ hd0, one_mul]
    exact_mod_cast hdn
  have hpos : (0 : ℚ) < n / d := by linarith
  have hsmall : (n : ℚ) < 2 ^ 53 := by exact_mod_cast hn
  have hbound : (n : ℚ) / d < 2 ^ 53 := by
    have hd1 : (1 : ℚ) ≤ d := by exact_mod_cast hd
    exact (div_le_self (by positivity) hd1).trans_lt hsmall
  have hlog : -1022 ≤ Int.log 2 ((n : ℚ) / d) := by
    have hh := Int.log_mono_right (b := 2) one_pos hone
    rw [Int.log_one_right] at hh
    omega
  generalize hk : ⌈(n : ℚ) / d⌉ = k
  have hupper : ofRat ((n : ℚ) / d) ≤ k :=
    ofRat_le (exponent_nonpos hpos hbound) (hk ▸ Int.le_ceil _)
  -- the quotient is a whole 1/d above the integer below it, and the rounding error is smaller
  have hgap : (k : ℚ) - 1 + 1 / d ≤ n / d := by
    have hbelow : (k : ℚ) - 1 < n / d := by
      have hh := Int.ceil_lt_add_one ((n : ℚ) / d)
      rw [hk] at hh
      linarith
    have hints : ((k - 1) * d : ℤ) + 1 ≤ (n : ℤ) := by
      rw [lt_div_iff₀ hd0] at hbelow
      exact_mod_cast hbelow
    have hrat : ((k : ℚ) - 1) * d + 1 ≤ n := by exact_mod_cast hints
    rw [le_div_iff₀ hd0, add_mul, one_div, inv_mul_cancel₀ hd0.ne']
    exact hrat
  have herror : (2 : ℚ) ^ exponent ((n : ℚ) / d) / 2 < 1 / d := by
    have hulp := ulp_le hpos hlog
    rw [le_div_iff₀ hd0] at hulp
    rw [lt_div_iff₀ hd0]
    linarith
  have hlower : (k : ℚ) - 1 < ofRat ((n : ℚ) / d) := by
    have hh := sub_half_ulp_le_ofRat ((n : ℚ) / d)
    linarith
  rw [Int.ceil_eq_iff]
  exact ⟨hlower, hupper⟩

end Double
