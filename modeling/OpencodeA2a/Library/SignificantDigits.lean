import Mathlib.Data.Nat.Log
import Mathlib.Tactic.Linarith
import Mathlib.Tactic.Ring

/-!
# Rounding a natural number to significant digits

`roundSig b p n` is the number of at most `p` digits in base `b`, followed by
zeros, that is nearest to `n`; of two equally near ones the even one. A number
of at most `p` digits in one base survives the rounding to `p'` digits in
another base and back, if that base has digits enough (`roundSig_roundSig`).
-/

namespace OpencodeA2a.SignificantDigits

/-! ## §1  Rounding to a multiple -/

/-- The multiple of `u` nearest to `n`. -/
def roundUnit (u n : ℕ) : ℕ :=
  if 2 * (n % u) < u ∨ 2 * (n % u) = u ∧ n / u % 2 = 0 then n / u * u else (n / u + 1) * u

theorem dvd_roundUnit (u n : ℕ) : u ∣ roundUnit u n := by
  unfold roundUnit
  split
  · exact Nat.dvd_mul_left ..
  · exact Nat.dvd_mul_left ..

/-- The rounded number is at most half a unit away. -/
theorem roundUnit_near {u : ℕ} (hu : 0 < u) (n : ℕ) :
    2 * roundUnit u n ≤ 2 * n + u ∧ 2 * n ≤ 2 * roundUnit u n + u := by
  have hdiv : n / u * u + n % u = n := Nat.div_add_mod' n u
  have hlt : n % u < u := Nat.mod_lt n hu
  have hsucc : (n / u + 1) * u = n / u * u + u := by ring
  unfold roundUnit
  split
  · omega
  · omega

/-- A multiple of the unit less than half a unit away is the rounded number. -/
theorem roundUnit_eq {u n d : ℕ} (hdvd : u ∣ d) (hle : 2 * n < 2 * d + u) (hge : 2 * d < 2 * n + u) :
    roundUnit u n = d := by
  have hu : 0 < u := by omega
  obtain ⟨hbelow, habove⟩ := roundUnit_near hu n
  apply le_antisymm
  · by_contra hlt
    have := Nat.sub_pos_of_lt (not_le.mp hlt)
    have hstep := Nat.le_of_dvd this (Nat.dvd_sub (dvd_roundUnit u n) hdvd)
    omega
  · by_contra hlt
    have := Nat.sub_pos_of_lt (not_le.mp hlt)
    have hstep := Nat.le_of_dvd this (Nat.dvd_sub hdvd (dvd_roundUnit u n))
    omega

/-! ## §2  Rounding to significant digits -/

/-- The place value of the last of the first `p` digits of `n`. -/
def lastPlace (b p n : ℕ) : ℕ := b ^ (Nat.log b n + 1 - p)

def roundSig (b p n : ℕ) : ℕ := roundUnit (lastPlace b p n) n

/-- At most `p` digits, followed by zeros. -/
def Representable (b p n : ℕ) : Prop := ∃ m k, m < b ^ p ∧ n = m * b ^ k

variable {b p n d : ℕ}

theorem lastPlace_pos (hb : 1 < b) : 0 < lastPlace b p n := Nat.pow_pos (Nat.zero_lt_of_lt hb)

/-- Where the last place of a number lies. -/
theorem lastPlace_bounds (hb : 1 < b) (hn : n ≠ 0) : ∃ e, lastPlace b p n = b ^ e ∧
    n < b ^ (p + e) ∧ (0 < e → b ^ (p + e - 1) ≤ n) := by
  refine ⟨Nat.log b n + 1 - p, rfl, ?_, ?_⟩
  · calc n < b ^ (Nat.log b n + 1) := Nat.lt_pow_succ_log_self hb n
      _ ≤ b ^ (p + (Nat.log b n + 1 - p)) := Nat.pow_le_pow_right (by omega) (by omega)
  · intro he
    calc b ^ (p + (Nat.log b n + 1 - p) - 1) ≤ b ^ Nat.log b n :=
        Nat.pow_le_pow_right (by omega) (by omega)
      _ ≤ n := Nat.pow_log_le_self b hn

theorem roundSig_of_lt (hb : 1 < b) (h : n < b ^ p) : roundSig b p n = n := by
  have hlast : lastPlace b p n ∣ n ∧ 0 < lastPlace b p n := by
    refine ⟨?_, lastPlace_pos hb⟩
    by_cases hn : n = 0
    · rw [hn]
      exact Nat.dvd_zero _
    · have hlog : Nat.log b n < p := Nat.log_lt_of_lt_pow hn h
      have hzero : Nat.log b n + 1 - p = 0 := by omega
      unfold lastPlace
      rw [hzero, Nat.pow_zero]
      exact Nat.one_dvd n
  obtain ⟨hdvd, hpos⟩ := hlast
  apply roundUnit_eq hdvd
  · omega
  · omega

/-- Rounding keeps what needs no rounding. -/
theorem Representable.roundSig_eq (hb : 1 < b) (h : Representable b p n) : roundSig b p n = n := by
  obtain ⟨m, k, hm, rfl⟩ := h
  by_cases hn : m * b ^ k = 0
  · rw [hn]
    exact roundSig_of_lt hb (Nat.pow_pos (Nat.zero_lt_of_lt hb))
  have hlt : m * b ^ k < b ^ (p + k) := by
    rw [Nat.pow_add]
    exact Nat.mul_lt_mul_of_pos_right hm (Nat.pow_pos (Nat.zero_lt_of_lt hb))
  have hlog : Nat.log b (m * b ^ k) < p + k := Nat.log_lt_of_lt_pow hn hlt
  have hpos : 0 < lastPlace b p (m * b ^ k) := lastPlace_pos hb
  have hdvd : lastPlace b p (m * b ^ k) ∣ m * b ^ k :=
    dvd_mul_of_dvd_right (Nat.pow_dvd_pow b (by omega)) m
  apply roundUnit_eq hdvd
  · omega
  · omega

/-- The rounded number needs no further rounding. -/
theorem representable_roundSig (hb : 1 < b) (hp : 0 < p) (n : ℕ) :
    Representable b p (roundSig b p n) := by
  by_cases hn : n = 0
  · rw [hn, roundSig_of_lt hb (Nat.pow_pos (Nat.zero_lt_of_lt hb))]
    exact ⟨0, 0, Nat.pow_pos (Nat.zero_lt_of_lt hb), by simp⟩
  obtain ⟨e, hlast, hlt, -⟩ := lastPlace_bounds (p := p) hb hn
  have hbe : 0 < b ^ e := Nat.pow_pos (Nat.zero_lt_of_lt hb)
  have hquot : n / b ^ e < b ^ p := by
    rw [Nat.div_lt_iff_lt_mul hbe, ← Nat.pow_add]
    exact hlt
  unfold roundSig roundUnit
  rw [hlast]
  split
  · exact ⟨n / b ^ e, e, hquot, rfl⟩
  · by_cases hcarry : n / b ^ e + 1 = b ^ p
    · refine ⟨1, p + e, Nat.one_lt_pow (by omega) hb, ?_⟩
      rw [hcarry, Nat.pow_add, Nat.one_mul]
    · exact ⟨n / b ^ e + 1, e, by omega, rfl⟩

theorem roundSig_pos (hb : 1 < b) (hp : 0 < p) (hn : n ≠ 0) : 0 < roundSig b p n := by
  obtain ⟨e, hlast, -, hge⟩ := lastPlace_bounds (p := p) hb hn
  obtain ⟨-, hbelow⟩ := roundUnit_near (lastPlace_pos (p := p) (n := n) hb) n
  have hle : lastPlace b p n ≤ n := by
    rw [hlast]
    by_cases he : 0 < e
    · exact (Nat.pow_le_pow_right (by omega) (by omega)).trans (hge he)
    · rw [Nat.eq_zero_of_not_pos he, Nat.pow_zero]
      omega
  unfold roundSig
  omega

/-! ## §3  Another base and back -/

/-- Rounding finds a number of at most `p` digits back from one so near to it that an error of
`v` can be repeated more than `b ^ p` times below it. -/
theorem roundSig_eq_of_near {x v : ℕ} (hb : 1 < b) (h : Representable b p d) (hx : x ≠ 0)
    (habove : 2 * x ≤ 2 * d + v) (hbelow : 2 * d ≤ 2 * x + v) (hv : v * (b ^ p + 1) ≤ d) :
    roundSig b p x = d := by
  obtain ⟨m, k, hm, rfl⟩ := h
  obtain ⟨e, hlast, hxlt, hxge⟩ := lastPlace_bounds (p := p) hb hx
  have hbp : 0 < b ^ p := Nat.pow_pos (Nat.zero_lt_of_lt hb)
  have hbk : 0 < b ^ k := Nat.pow_pos (Nat.zero_lt_of_lt hb)
  have hbe : 0 < b ^ e := Nat.pow_pos (Nat.zero_lt_of_lt hb)
  rw [Nat.mul_succ] at hv
  -- the next number of `p` digits is further away than the error
  have hnext : m * b ^ k + b ^ k ≤ b ^ p * b ^ k := by
    rw [← Nat.succ_mul]
    exact Nat.mul_le_mul_right _ hm
  have hvk : v < b ^ k := by
    apply lt_of_mul_lt_mul_left _ hbp.le
    calc b ^ p * v = v * b ^ p := Nat.mul_comm ..
      _ < b ^ p * b ^ k := by omega
  have hke : e ≤ k := by
    by_contra hlt
    have hpow : b ^ p * b ^ k ≤ b ^ (p + e - 1) := by
      rw [← Nat.pow_add]
      exact Nat.pow_le_pow_right (by omega) (by omega)
    have := hxge (by omega)
    omega
  have hdvd : b ^ e ∣ m * b ^ k := dvd_mul_of_dvd_right (Nat.pow_dvd_pow b hke) m
  rw [Nat.pow_add] at hxlt
  have hdle : m * b ^ k ≤ b ^ p * b ^ e := by
    by_contra hlt
    have hstep := Nat.le_of_dvd (Nat.sub_pos_of_lt (not_le.mp hlt))
      (Nat.dvd_sub hdvd (Nat.dvd_mul_left (b ^ e) (b ^ p)))
    have hve : v < b ^ e := by
      apply lt_of_mul_lt_mul_left _ hbp.le
      calc b ^ p * v = v * b ^ p := Nat.mul_comm ..
        _ < b ^ p * b ^ e := by omega
    omega
  have hve : v < b ^ e := by
    by_contra hle
    have hmul : b ^ p * b ^ e ≤ v * b ^ p := by
      rw [Nat.mul_comm]
      exact Nat.mul_le_mul_right _ (not_lt.mp hle)
    omega
  unfold roundSig
  rw [hlast]
  apply roundUnit_eq hdvd
  · omega
  · omega

/-- **Through another base and back**: if the other base's numbers are so dense that `b ^ p`
of them fit below its first digit, nothing is lost. -/
theorem roundSig_roundSig {b' p' : ℕ} (hb : 1 < b) (hb' : 1 < b') (h : Representable b p d)
    (hdense : b ^ p < b' ^ (p' - 1)) : roundSig b p (roundSig b' p' d) = d := by
  have hp' : 0 < p' - 1 := by
    apply Nat.pos_of_ne_zero
    intro hzero
    rw [hzero, Nat.pow_zero] at hdense
    have := Nat.pow_pos (n := p) (Nat.zero_lt_of_lt hb)
    omega
  by_cases hsmall : d < b' ^ p'
  · rw [roundSig_of_lt hb' hsmall]
    exact h.roundSig_eq hb
  have hd : d ≠ 0 := by
    rintro rfl
    exact hsmall (Nat.pow_pos (Nat.zero_lt_of_lt hb'))
  obtain ⟨e, hlast, hlt, hge⟩ := lastPlace_bounds (p := p') hb' hd
  have he : 0 < e := by
    apply Nat.pos_of_ne_zero
    rintro rfl
    exact hsmall hlt
  have hbe : 0 < b' ^ e := Nat.pow_pos (Nat.zero_lt_of_lt hb')
  obtain ⟨habove, hbelow⟩ := roundUnit_near hbe d
  have herror : b' ^ e * (b ^ p + 1) ≤ d :=
    calc b' ^ e * (b ^ p + 1) ≤ b' ^ e * b' ^ (p' - 1) := Nat.mul_le_mul_left _ hdense
      _ = b' ^ (p' + e - 1) := by rw [← Nat.pow_add]; congr 1; omega
      _ ≤ d := hge he
  have hx : roundUnit (b' ^ e) d ≠ 0 := by
    intro hzero
    have : b' ^ e * 2 ≤ b' ^ e * (b ^ p + 1) :=
      Nat.mul_le_mul_left _ (Nat.succ_le_succ (Nat.pow_pos (Nat.zero_lt_of_lt hb)))
    omega
  unfold roundSig at *
  rw [hlast]
  exact roundSig_eq_of_near hb h hx habove hbelow herror

end OpencodeA2a.SignificantDigits
