import Mathlib.Algebra.Order.Floor.Semifield
import Mathlib.Data.Rat.Floor
import Mathlib.Tactic.FieldSimp
import Mathlib.Tactic.Linarith
import Mathlib.Tactic.Positivity
import Mathlib.Tactic.Ring
import Picolibs.Loop
/-!
# Pwm — the divider and the wrap value of a PWM output (`pwm.cpp`)

Divisions are exact, and a quotient by zero is `none`, which no comparison accepts.  What is printed to `stderr` is left
out.  `clkdiv`, `top` and `level` are the slice as it was last configured.

`freq * wrap_` is a product of 32 bits.  From 65539 Hz on it is too small, and the divider too large, unless what is
left of it is above the clock: then the divider is 1 and the product is not used again.  The members are written before
the range is tested.
-/
namespace Pico

structure Pwm where
  div : Option ℚ := some 0
  wrap : UInt16 := 0
  clkdiv : Option ℚ := some 0
  top : UInt16 := 0
  level : UInt16 := 0
  deriving DecidableEq

namespace Pwm

/-- A quotient; by zero it is infinite or not a number. -/
def quotient (a b : ℚ) : Option ℚ := if b = 0 then none else some (a / b)

/-- `setFrequency` with the system clock `clk`. -/
def setFrequency (clk : UInt32) (p : Pwm) (freq : UInt32) : Bool × Pwm :=
  let p := { p with wrap := 65534 }
  let p := { p with div := quotient clk.toNat (freq * p.wrap.toUInt32).toNat }
  let p :=
    if p.div.any (· < 1) then
      let p := { p with div := some 1 }
      { p with wrap := ((p.div.bind fun d => quotient clk.toNat (freq.toNat * d)).map fun x => ⌊x⌋₊.toUInt16).getD 0 }
    else p
  if p.div.any (· ≤ 256) && p.wrap > 2 then (true, { p with clkdiv := p.div, top := p.wrap, level := 0 })
  else (false, p)

/-- `setDutyCycle`. -/
def setDutyCycle (p : Pwm) (duty : ℚ) : UInt16 × Pwm :=
  let duty := if duty < 0 then 0 else duty
  let duty := if duty > 1 then 1 else duty
  let level := ⌊duty * p.wrap.toNat⌋₊.toUInt16
  (level, { p with level })

/-- `freq`. -/
def freq (clk : UInt32) (p : Pwm) : Option UInt32 :=
  p.div.bind fun d => (quotient clk.toNat (d * p.wrap.toNat)).map fun x => ⌊x⌋₊.toUInt32

/-! ## What a call writes -/

variable {clk freq : UInt32} {p : Pwm}

/-- `freq * wrap_` as it is computed. -/
def rate (freq : UInt32) : Nat := (freq * 65534).toNat

/-- The values `setFrequency` writes to `div_` and `wrap_`. -/
def nextDiv (clk freq : UInt32) : Option ℚ :=
  if clk.toNat < rate freq then some 1 else quotient clk.toNat (rate freq)

def nextWrap (clk freq : UInt32) : UInt16 :=
  if clk.toNat < rate freq then (clk.toNat / freq.toNat).toUInt16 else 65534

/-- The range test on the clock and the frequency. -/
def Accepted (clk freq : UInt32) : Prop :=
  if clk.toNat < rate freq then 3 * freq.toNat ≤ clk.toNat else 0 < rate freq ∧ clk.toNat ≤ 256 * rate freq

instance : Decidable (Accepted clk freq) := by
  unfold Accepted
  infer_instance

theorem rate_eq (freq : UInt32) : rate freq = freq.toNat * 65534 % 2 ^ 32 := UInt32.toNat_mul freq 65534

theorem rate_le (freq : UInt32) : rate freq ≤ freq.toNat * 65534 := by
  rw [rate_eq]
  exact Nat.mod_le _ _

/-- With the divider at 1 the wrap value fits. -/
theorem div_lt_of_lt_rate (h : clk.toNat < rate freq) : 0 < freq.toNat ∧ clk.toNat / freq.toNat < 65534 := by
  have hle := rate_le freq
  refine ⟨by omega, Nat.div_lt_of_lt_mul ?_⟩
  omega

theorem toNat_nextWrap (h : clk.toNat < rate freq) : (nextWrap clk freq).toNat = clk.toNat / freq.toNat := by
  have hlt := (div_lt_of_lt_rate h).2
  rw [nextWrap, if_pos h, Nat.toUInt16_eq, UInt16.toNat_ofNat']
  exact Nat.mod_eq_of_lt (by omega)

theorem quotient_lt_one_iff (a b : Nat) : (quotient a b).any (· < 1) = true ↔ a < b := by
  unfold quotient
  split_ifs with hb
  · have hb0 : b = 0 := by exact_mod_cast hb
    simp [hb0]
  · have hpos : (0 : ℚ) < b := lt_of_le_of_ne (Nat.cast_nonneg b) (Ne.symm hb)
    rw [Option.any_some, decide_eq_true_eq, div_lt_one hpos, Nat.cast_lt]

theorem quotient_le_iff (a b : Nat) : (quotient a b).any (· ≤ 256) = true ↔ 0 < b ∧ a ≤ 256 * b := by
  unfold quotient
  split_ifs with hb
  · have hb0 : b = 0 := by exact_mod_cast hb
    simp [hb0]
  · have hpos : (0 : ℚ) < b := lt_of_le_of_ne (Nat.cast_nonneg b) (Ne.symm hb)
    rw [Option.any_some, decide_eq_true_eq, div_le_iff₀ hpos]
    have hb' : 0 < b := Nat.cast_pos.1 hpos
    constructor
    · intro h
      exact ⟨hb', by exact_mod_cast h⟩
    · rintro ⟨-, h⟩
      exact_mod_cast h

theorem floor_quotient (h : clk.toNat < rate freq) :
    ((quotient clk.toNat (freq.toNat * 1)).map fun x => ⌊x⌋₊.toUInt16).getD 0 = nextWrap clk freq := by
  have hne : (freq.toNat : ℚ) ≠ 0 := Nat.cast_ne_zero.2 (Nat.ne_of_gt (div_lt_of_lt_rate h).1)
  rw [mul_one, quotient, if_neg hne, Option.map_some, Option.getD_some, Nat.floor_div_eq_div, nextWrap, if_pos h]

theorem nextWrap_gt_iff (h : clk.toNat < rate freq) : nextWrap clk freq > 2 ↔ 3 * freq.toNat ≤ clk.toNat := by
  rw [gt_iff_lt, UInt16.lt_iff_toNat_lt, toNat_nextWrap h, UInt16.toNat_ofNat, ← Nat.succ_le_iff,
    Nat.le_div_iff_mul_le (div_lt_of_lt_rate h).1]

/-- **What `setFrequency` does**: it writes the members, and the slice where the range test is passed. -/
theorem setFrequency_eq (clk freq : UInt32) (p : Pwm) : setFrequency clk p freq =
    (decide (Accepted clk freq),
      if Accepted clk freq then
        { div := nextDiv clk freq, wrap := nextWrap clk freq, clkdiv := nextDiv clk freq, top := nextWrap clk freq,
          level := 0 }
      else { p with div := nextDiv clk freq, wrap := nextWrap clk freq }) := by
  have hrate : (freq * (65534 : UInt16).toUInt32).toNat = rate freq := rfl
  unfold setFrequency
  simp only [hrate]
  by_cases h : clk.toNat < rate freq
  · have hacc : (decide ((1 : ℚ) ≤ 256) && decide (nextWrap clk freq > 2)) = decide (Accepted clk freq) := by
      rw [decide_eq_true (by norm_num), Bool.true_and, decide_eq_decide, nextWrap_gt_iff h, Accepted, if_pos h]
    rw [if_pos ((quotient_lt_one_iff _ _).2 h)]
    simp only [Option.bind_some, floor_quotient h, Option.any_some, hacc, decide_eq_true_eq, nextDiv, if_pos h]
    split_ifs with hA <;> simp [hA]
  · have hacc : ((quotient clk.toNat (rate freq)).any (· ≤ 256) && decide ((65534 : UInt16) > 2)) =
        decide (Accepted clk freq) := by
      rw [decide_eq_true (by decide), Bool.and_true, Bool.eq_iff_iff, quotient_le_iff, decide_eq_true_eq, Accepted,
        if_neg h]
    rw [if_neg (fun hlt => h ((quotient_lt_one_iff _ _).1 hlt))]
    simp only [hacc, decide_eq_true_eq, nextDiv, nextWrap, if_neg h]
    split_ifs with hA <;> simp [hA]

/-! ## The frequency asked for -/

/-- The frequencies the divider and the wrap value can give. -/
def InRange (clk freq : UInt32) : Prop :=
  (clk.toNat : ℚ) / (256 * 65534) ≤ freq.toNat ∧ 3 ≤ (clk.toNat : ℚ) / freq.toNat

/-- A frequency in range is set, to less than one step of the divider, and a call that fails leaves the members. -/
def Meets (clk freq : UInt32) (p : Pwm) : Prop :=
  (InRange clk freq → (setFrequency clk p freq).1 = true ∧
    ∃ d, (setFrequency clk p freq).2.div = some d ∧ (setFrequency clk p freq).2.clkdiv = some d ∧
      (setFrequency clk p freq).2.top = (setFrequency clk p freq).2.wrap ∧
      |d * (setFrequency clk p freq).2.wrap.toNat - (clk.toNat : ℚ) / freq.toNat| < d) ∧
  ((setFrequency clk p freq).1 = false →
    (setFrequency clk p freq).2.div = p.div ∧ (setFrequency clk p freq).2.wrap = p.wrap)

/-- The product fits into 32 bits or is above the clock; the range test is passed or nothing is new. -/
def Fits (clk freq : UInt32) (p : Pwm) : Prop :=
  (InRange clk freq → freq.toNat * 65534 < 2 ^ 32 ∨ clk.toNat < rate freq) ∧
  (Accepted clk freq ∨ p.div = nextDiv clk freq ∧ p.wrap = nextWrap clk freq)

theorem inRange_iff (clk freq : UInt32) :
    InRange clk freq ↔ 0 < freq.toNat ∧ clk.toNat ≤ 256 * 65534 * freq.toNat ∧ 3 * freq.toNat ≤ clk.toNat := by
  rw [InRange, div_le_iff₀ (by norm_num)]
  rcases Nat.eq_zero_or_pos freq.toNat with h0 | hpos
  · rw [h0]
    norm_num
  · have hposq : (0 : ℚ) < freq.toNat := Nat.cast_pos.2 hpos
    rw [le_div_iff₀ hposq]
    constructor
    · rintro ⟨h1, h2⟩
      have h1' : clk.toNat ≤ freq.toNat * (256 * 65534) := by exact_mod_cast h1
      exact ⟨hpos, by omega, by exact_mod_cast h2⟩
    · rintro ⟨-, h1, h2⟩
      have h1' : clk.toNat ≤ freq.toNat * (256 * 65534) := by omega
      exact ⟨by exact_mod_cast h1', by exact_mod_cast h2⟩

/-- The divider and the wrap value that are written are right. -/
def Close (clk freq : UInt32) : Prop :=
  ∃ d, nextDiv clk freq = some d ∧ |d * (nextWrap clk freq).toNat - (clk.toNat : ℚ) / freq.toNat| < d

theorem close_of_lt_rate (h : clk.toNat < rate freq) : Close clk freq := by
  refine ⟨1, by rw [nextDiv, if_pos h], ?_⟩
  rw [toNat_nextWrap h, one_mul, abs_lt, ← Nat.floor_div_eq_div (K := ℚ)]
  have hle := Nat.floor_le (a := (clk.toNat : ℚ) / freq.toNat) (by positivity)
  have hlt := Nat.lt_floor_add_one ((clk.toNat : ℚ) / freq.toNat)
  constructor <;> linarith

/-- A divider `c / q` with a wrap value `w` is within one step of `c / f` when `q` is less than `f` below `f * w`. -/
theorem step_iff {c f q w : ℚ} (hc : 0 < c) (hf : 0 < f) (hq : 0 < q) (hle : q ≤ f * w) :
    |c / q * w - c / f| < c / q ↔ f * w - q < f := by
  have hdiff : c / q * w - c / f = c / q * ((f * w - q) / f) := by
    field_simp
  have hpos : 0 < c / q := div_pos hc hq
  have hnonneg : 0 ≤ (f * w - q) / f := div_nonneg (by linarith) hf.le
  rw [hdiff, abs_of_nonneg (mul_nonneg hpos.le hnonneg), mul_lt_iff_lt_one_right hpos, div_lt_one hf]

/-- What the product of 32 bits leaves out is nothing or more than the frequency. -/
theorem rate_lt_iff (hpos : 0 < freq.toNat) :
    freq.toNat * 65534 < rate freq + freq.toNat ↔ freq.toNat * 65534 < 2 ^ 32 := by
  have hlt := freq.toNat_lt
  have hmod := Nat.div_add_mod (freq.toNat * 65534) (2 ^ 32)
  rw [← rate_eq] at hmod
  constructor
  · intro h
    by_contra hge
    have hk : 0 < freq.toNat * 65534 / 2 ^ 32 := Nat.div_pos (Nat.not_lt.1 hge) (by decide)
    omega
  · intro h
    rw [Nat.div_eq_of_lt h] at hmod
    omega

theorem close_iff_of_rate_le (hf : 0 < freq.toNat) (h0 : 0 < rate freq) (h : rate freq ≤ clk.toNat) :
    Close clk freq ↔ freq.toNat * 65534 < 2 ^ 32 := by
  have hnot : ¬ clk.toNat < rate freq := Nat.not_lt.2 h
  have hdiv : nextDiv clk freq = some ((clk.toNat : ℚ) / rate freq) := by
    rw [nextDiv, if_neg hnot, quotient, if_neg (Nat.cast_ne_zero.2 (Nat.ne_of_gt h0))]
  have hwrap : (nextWrap clk freq).toNat = 65534 := by
    rw [nextWrap, if_neg hnot]
    rfl
  have hle : (rate freq : ℚ) ≤ freq.toNat * (65534 : ℕ) := by exact_mod_cast rate_le freq
  have hiff := step_iff (c := clk.toNat) (f := freq.toNat) (q := rate freq) (w := (65534 : ℕ))
    (Nat.cast_pos.2 (Nat.lt_of_lt_of_le h0 h)) (Nat.cast_pos.2 hf) (Nat.cast_pos.2 h0) hle
  rw [Close, hdiv, hwrap, ← rate_lt_iff hf, ← Nat.cast_lt (α := ℚ)]
  simp only [Option.some.injEq, exists_eq_left', hiff]
  push_cast
  constructor <;> intro <;> linarith

/-- In range, the call passes the test with the right values if and only if the product is right or above the clock. -/
theorem accepted_close_iff (h : InRange clk freq) :
    Accepted clk freq ∧ Close clk freq ↔ freq.toNat * 65534 < 2 ^ 32 ∨ clk.toNat < rate freq := by
  obtain ⟨hf, hlow, hhigh⟩ := (inRange_iff clk freq).1 h
  rw [Accepted]
  by_cases hlt : clk.toNat < rate freq
  · rw [if_pos hlt]
    exact iff_of_true ⟨hhigh, close_of_lt_rate hlt⟩ (.inr hlt)
  · rw [if_neg hlt, or_iff_left hlt]
    constructor
    · rintro ⟨⟨h0, -⟩, hclose⟩
      exact (close_iff_of_rate_le hf h0 (Nat.not_lt.1 hlt)).1 hclose
    · intro hfit
      have hrate : rate freq = freq.toNat * 65534 := by rw [rate_eq, Nat.mod_eq_of_lt hfit]
      have h0 : 0 < rate freq := by omega
      exact ⟨⟨h0, by omega⟩, (close_iff_of_rate_le hf h0 (Nat.not_lt.1 hlt)).2 hfit⟩

theorem meets_iff (clk freq : UInt32) (p : Pwm) : Meets clk freq p ↔ Fits clk freq p := by
  rw [Meets, Fits, setFrequency_eq]
  refine and_congr (imp_congr_right fun h => ?_) ?_
  · rw [← accepted_close_iff h, decide_eq_true_eq]
    refine and_congr_right fun hA => ?_
    simp only [if_pos hA, Close, true_and]
    constructor
    · rintro ⟨d, hd, -, hlt⟩
      exact ⟨d, hd, hlt⟩
    · rintro ⟨d, hd, hlt⟩
      exact ⟨d, hd, hd, hlt⟩
  · by_cases hA : Accepted clk freq
    · simp [hA]
    · simp [hA, eq_comm]

/-! ## Runs -/

/-- The members are those of the slice. -/
def Described (p : Pwm) : Prop := p.div = p.clkdiv ∧ p.wrap = p.top

/-- The object with the members as the slice has them. -/
def slice (p : Pwm) : Pwm := { p with div := p.clkdiv, wrap := p.top }

theorem slice_eq (h : Described p) : p.slice = p := by
  obtain ⟨div, wrap, clkdiv, top, level⟩ := p
  simp only [Described] at h
  obtain ⟨rfl, rfl⟩ := h
  rfl

/-- The calls of a program. -/
inductive Call where
  | setFrequency (freq : UInt32)
  | setDutyCycle (duty : ℚ)

def step (clk : UInt32) (p : Pwm) : Call → Pwm
  | .setFrequency freq => (p.setFrequency clk freq).2
  | .setDutyCycle duty => (p.setDutyCycle duty).2

/-- Every call for a frequency fits. -/
def FitsCall (clk : UInt32) (p : Pwm) : Call → Prop
  | .setFrequency freq => Fits clk freq p
  | .setDutyCycle _ => True

theorem described_setFrequency (h : Described p) (hfit : Fits clk freq p) :
    Described (p.setFrequency clk freq).2 := by
  rw [setFrequency_eq]
  by_cases hA : Accepted clk freq
  · rw [if_pos hA]
    exact ⟨rfl, rfl⟩
  · obtain ⟨hdiv, hwrap⟩ := hfit.2.resolve_left hA
    rw [if_neg hA, ← hdiv, ← hwrap]
    exact h

/-- **As long as every call fits, the members describe the running hardware.** -/
theorem described_of_reach (h : Described p) :
    ∀ {s : Pwm}, History.Reach p (step clk) (FitsCall clk) s → Described s :=
  History.inv_of_reach h fun s c hs hc => by
    cases c with
    | setFrequency freq =>
      rw [FitsCall] at hc
      rw [step]
      exact described_setFrequency hs hc
    | setDutyCycle duty => exact hs

/-- **A call keeps its promise if and only if it fits**, and after calls that fit the duty cycle and the frequency are
those of the slice. -/
theorem setFrequency_meets (clk : UInt32) (p : Pwm) :
    (∀ freq, Meets clk freq p ↔ Fits clk freq p) ∧
      (Described p → ∀ s, History.Reach p (step clk) (FitsCall clk) s →
        (∀ duty, s.setDutyCycle duty = s.slice.setDutyCycle duty) ∧ s.freq clk = s.slice.freq clk) := by
  refine ⟨fun freq => meets_iff clk freq p, fun h s hs => ?_⟩
  rw [slice_eq (described_of_reach h hs)]
  exact ⟨fun _ => rfl, rfl⟩

theorem fits_kilohertz (p : Pwm) : FitsCall 125000000 p (.setFrequency 1000) :=
  ⟨fun _ => .inl (by decide), .inl (by decide)⟩

theorem setFrequency_meets_kilohertz :
    Meets 125000000 1000 {} ∧
      (step 125000000 {} (.setFrequency 1000)).freq 125000000 =
        (step 125000000 {} (.setFrequency 1000)).slice.freq 125000000 :=
  ⟨((setFrequency_meets 125000000 {}).1 1000).2 (fits_kilohertz {}),
    ((setFrequency_meets 125000000 {}).2 ⟨rfl, rfl⟩ _ (.step .init (fits_kilohertz {}))).2⟩

/-- A frequency in range that is turned down: the product comes to 65530. -/
theorem product_wraps : ¬ Meets 125000000 65539 {} := by
  rw [meets_iff]
  intro h
  have hrange : InRange 125000000 65539 := (inRange_iff _ _).2 ⟨by decide, by decide, by decide⟩
  rcases h.1 hrange with hlt | hlt
  · exact absurd hlt (by decide)
  · exact absurd hlt (by decide)

end Pwm
end Pico
