import Picolibs.Pwm
/-!
# Levels — the scale of the samples and the levels made with it (`sound.cpp`)

`scale` takes the larger of two factors, one for the highest sample and one for the lowest, and its loop leaves out the
last sample.  Arithmetic on `float` is exact here, and a factor by zero is none.  A level is between 0 and the wrap
value if and only if the distance of its sample from 0x80 times the scale is at most 0x4000 (`ideal_bounds_iff`), so
that the factor of either side has to fit the sample that is farthest out.
-/
namespace Pico

/-- What a level is made from. -/
structure Levels where
  data : List UInt8 := []
  volume : ℚ := 1
  scaling : Option UInt16 := some 0

namespace Levels

open Pwm (quotient)

/-! ## The source -/

/-- One pass of the loop over the samples. -/
def widen (extremes : UInt8 × UInt8) (x : UInt8) : UInt8 × UInt8 :=
  (if x > extremes.1 then x else extremes.1, if x < extremes.2 then x else extremes.2)

/-- The value `scale` gives `scale_`. -/
def scaleOf (data : List UInt8) (volume : ℚ) : Option UInt16 :=
  match data with
  | [] => some 0
  | x :: rest =>
    let extremes := rest.dropLast.foldl widen (x, x)
    (quotient (0xff - 0x80) (extremes.1.toNat - 0x80)).bind fun scaleh =>
      (quotient (0x80 - 0x00) (0x80 - extremes.2.toNat)).map fun scalel =>
        let scale := if scaleh > scalel then scaleh else scalel
        ⌊scale * volume * 0x80⌋₊.toUInt16

/-- `scale`. -/
def scale (s : Levels) : Levels := { s with scaling := scaleOf s.data s.volume }

/-- `setSoundData`. -/
def setSoundData (s : Levels) (data : List UInt8) : Levels := scale { s with data }

/-- `setVolume`. -/
def setVolume (s : Levels) (volume : UInt8) : Levels :=
  let s := { s with volume := volume.toNat / 100 }
  scale (if s.volume > 1 then { s with volume := 1 } else s)

/-- The level `next_pulse` sets for a sample: an `int` times a `uint32_t`. -/
def level (s : Levels) (wrap : UInt16) (x : UInt8) : Option UInt16 :=
  s.scaling.map fun scale =>
    (UInt32.ofInt (((x.toNat : ℤ) - 0x80) * scale.toNat + 0x4000) * wrap.toUInt32 / 0x8000).toUInt16

inductive Call where
  | setSoundData (data : List UInt8)
  | setVolume (volume : UInt8)

def step (s : Levels) : Call → Levels
  | .setSoundData data => s.setSoundData data
  | .setVolume volume => s.setVolume volume

/-! ## What it should be -/

/-- A level in exact arithmetic. -/
def ideal (scale wrap : UInt16) (x : UInt8) : ℚ :=
  (((x.toNat : ℚ) - 0x80) * scale.toNat + 0x4000) * wrap.toNat / 0x8000

/-- Every sample's level is between 0 and the wrap value, and is what is set. -/
def Bounded (s : Levels) (wrap : UInt16) : Prop :=
  ∃ scale, s.scaling = some scale ∧ ∀ x ∈ s.data, 0 ≤ ideal scale wrap x ∧ ideal scale wrap x ≤ wrap.toNat ∧
    ∃ l, s.level wrap x = some l ∧ (l.toNat : ℤ) = ⌊ideal scale wrap x⌋

/-- How far a sample is from 0x80. -/
def dist (x : UInt8) : Nat := ((x.toNat : ℤ) - 0x80).natAbs

/-- The highest and the lowest of all samples but the last, and the greatest distance of any sample. -/
def peak (data : List UInt8) : UInt8 := data.dropLast.max?.getD 0

def trough (data : List UInt8) : UInt8 := data.dropLast.min?.getD 0

def farthest (data : List UInt8) : Nat := (data.map dist).max?.getD 0

/-- The scales that are too large begin here. -/
def limit (data : List UInt8) : Nat := 0x4000 / farthest data + 1

/-- The peak and the trough are not at 0x80 itself, and the factor of neither comes to the limit. -/
def Fits (s : Levels) (wrap : UInt16) : Prop :=
  peak s.data ≠ 0x80 ∧ trough s.data ≠ 0x80 ∧ (wrap = 0 ∨
    (0x80 < peak s.data → 127 * 128 * s.volume < ((peak s.data).toNat - 0x80) * limit s.data) ∧
    (trough s.data < 0x80 → 128 * 128 * s.volume < (0x80 - (trough s.data).toNat) * limit s.data))

/-! ## One level -/

variable {s : Levels} {wrap : UInt16}

/-- A level as an integer before the division. -/
def raised (scale : Nat) (x : UInt8) : ℤ := ((x.toNat : ℤ) - 0x80) * scale + 0x4000

theorem dist_mul_le_iff (x : UInt8) (scale : Nat) :
    dist x * scale ≤ 0x4000 ↔ 0 ≤ raised scale x ∧ raised scale x ≤ 0x8000 := by
  have hnat : dist x * scale = (((x.toNat : ℤ) - 0x80) * scale).natAbs := by
    rw [Int.natAbs_mul, Int.natAbs_natCast, dist]
  rw [hnat, raised]
  omega

theorem ideal_eq (scale wrap : UInt16) (x : UInt8) :
    ideal scale wrap x = (raised scale.toNat x * wrap.toNat : ℤ) / (0x8000 : ℕ) := by
  rw [ideal, raised]
  push_cast
  ring

/-- **A level stays in range if and only if** the sample's distance times the scale is at most 0x4000. -/
theorem ideal_bounds_iff (scale : UInt16) (hw : wrap ≠ 0) (x : UInt8) :
    0 ≤ ideal scale wrap x ∧ ideal scale wrap x ≤ wrap.toNat ↔ dist x * scale.toNat ≤ 0x4000 := by
  have hpos : (0 : ℤ) < wrap.toNat := by
    rw [Nat.cast_pos, Nat.pos_iff_ne_zero]
    exact fun h => hw (UInt16.toNat_inj.1 h)
  have h0 : (0 : ℚ) ≤ (raised scale.toNat x * wrap.toNat : ℤ) / (0x8000 : ℕ) ↔ 0 ≤ raised scale.toNat x := by
    rw [le_div_iff₀ (by norm_num), zero_mul, Int.cast_nonneg_iff]
    exact mul_nonneg_iff_of_pos_right hpos
  have h1 : ((raised scale.toNat x * wrap.toNat : ℤ) : ℚ) / (0x8000 : ℕ) ≤ wrap.toNat ↔
      raised scale.toNat x ≤ 0x8000 := by
    rw [div_le_iff₀ (by norm_num), mul_comm ((wrap.toNat : ℕ) : ℚ)]
    rw [← Int.cast_natCast (R := ℚ) wrap.toNat, ← Int.cast_natCast (R := ℚ) 0x8000, ← Int.cast_mul, Int.cast_le]
    exact mul_le_mul_iff_of_pos_right hpos
  rw [ideal_eq, h0, h1, dist_mul_le_iff]

/-- A level in range is computed as it should be: the product of 32 bits does not wrap, nor does the level. -/
theorem level_eq {scale : UInt16} (hs : s.scaling = some scale) {x : UInt8}
    (h : wrap = 0 ∨ dist x * scale.toNat ≤ 0x4000) :
    ∃ l, s.level wrap x = some l ∧ (l.toNat : ℤ) = ⌊ideal scale wrap x⌋ := by
  have hlevel : s.level wrap x =
      some (UInt32.ofInt (raised scale.toNat x) * wrap.toUInt32 / 0x8000).toUInt16 := by
    rw [level, hs]
    rfl
  refine ⟨_, hlevel, ?_⟩
  rw [ideal_eq, Rat.floor_intCast_div_natCast, UInt32.toNat_toUInt16, UInt32.toNat_div, UInt32.toNat_mul,
    UInt16.toNat_toUInt32]
  rcases h with rfl | h
  · simp
  · obtain ⟨h0, h1⟩ := (dist_mul_le_iff x scale.toNat).1 h
    obtain ⟨n, hn⟩ := Int.eq_ofNat_of_zero_le h0
    have hw := wrap.toNat_lt
    have hle : n * wrap.toNat ≤ 0x8000 * wrap.toNat := Nat.mul_le_mul_right _ (by omega)
    have hu : (UInt32.ofInt (raised scale.toNat x)).toNat = n := by
      rw [hn, UInt32.ofInt, UInt32.toNat_ofNat']
      omega
    have hdiv : n * wrap.toNat / 0x8000 < 2 ^ 16 := by omega
    have h32 : (0x8000 : UInt32).toNat = 0x8000 := rfl
    rw [hu, hn, h32, Nat.mod_eq_of_lt (show n * wrap.toNat < 2 ^ 32 by omega), Nat.mod_eq_of_lt hdiv]
    push_cast
    rfl

/-- The levels of a scale are right if and only if every distance times the scale is at most 0x4000. -/
theorem bounded_iff {scale : UInt16} (hs : s.scaling = some scale) :
    Bounded s wrap ↔ wrap = 0 ∨ ∀ x ∈ s.data, dist x * scale.toNat ≤ 0x4000 := by
  constructor
  · rintro ⟨scale', hs', h⟩
    rw [hs, Option.some.injEq] at hs'
    subst hs'
    rw [or_iff_not_imp_left]
    intro hw x hx
    obtain ⟨h0, h1, -⟩ := h x hx
    exact (ideal_bounds_iff scale hw x).1 ⟨h0, h1⟩
  · intro h
    refine ⟨scale, hs, fun x hx => ?_⟩
    have hx' : wrap = 0 ∨ dist x * scale.toNat ≤ 0x4000 := h.imp_right fun h => h x hx
    refine and_assoc.1 ⟨?_, level_eq hs hx'⟩
    by_cases hw : wrap = 0
    · subst hw
      simp [ideal]
    · exact (ideal_bounds_iff scale hw x).2 (hx'.resolve_left hw)

/-! ## The extremes -/

theorem ite_gt_eq_max (a x : UInt8) : (if x > a then x else a) = max a x := by
  have hmax : max a x = if a ≤ x then x else a := rfl
  rw [hmax]
  by_cases h : a ≤ x
  · rw [if_pos h]
    split_ifs with hlt
    · rfl
    · exact UInt8.le_antisymm h (UInt8.not_lt.1 hlt)
  · rw [if_neg h, if_neg fun hlt => h (UInt8.le_of_lt hlt)]

theorem ite_lt_eq_min (a x : UInt8) : (if x < a then x else a) = min a x := by
  have hmin : min a x = if a ≤ x then a else x := rfl
  rw [hmin]
  by_cases h : a ≤ x
  · rw [if_pos h, if_neg (UInt8.not_lt.2 h)]
  · rw [if_neg h, if_pos (UInt8.not_le.1 h)]

theorem widen_eq (e : UInt8 × UInt8) (x : UInt8) : widen e x = (max e.1 x, min e.2 x) := by
  rw [widen, ite_gt_eq_max, ite_lt_eq_min]

theorem foldl_widen : ∀ (l : List UInt8) (high low : UInt8),
    l.foldl widen (high, low) = (l.foldl max high, l.foldl min low)
  | [], _, _ => rfl
  | x :: l, high, low => by
    rw [List.foldl_cons, widen_eq, foldl_widen l, List.foldl_cons, List.foldl_cons]

/-- **The loop finds the extremes of all samples but the last.** -/
theorem extremes_eq (x : UInt8) {rest : List UInt8} (h : rest ≠ []) :
    rest.dropLast.foldl widen (x, x) = (peak (x :: rest), trough (x :: rest)) := by
  rw [foldl_widen, peak, trough, List.dropLast_cons_of_ne_nil h, List.max?_cons', List.min?_cons', Option.getD_some,
    Option.getD_some]

theorem dist_le_farthest {data : List UInt8} (hne : data ≠ []) (n : Nat) :
    farthest data ≤ n ↔ ∀ x ∈ data, dist x ≤ n := by
  obtain ⟨m, hm⟩ := Option.isSome_iff_exists.1 (List.isSome_max?_of_ne_nil (l := data.map dist) (by simpa using hne))
  rw [farthest, hm, Option.getD_some, List.max?_le_iff hm]
  exact List.forall_mem_map

/-- The scales below the limit are those that fit every sample. -/
theorem lt_limit_iff {data : List UInt8} (hne : data ≠ []) (hpos : 0 < farthest data) (n : Nat) :
    n < limit data ↔ ∀ x ∈ data, dist x * n ≤ 0x4000 := by
  rw [limit, Nat.lt_succ_iff, Nat.le_div_iff_mul_le hpos, Nat.mul_comm]
  rcases Nat.eq_zero_or_pos n with rfl | hn
  · simp
  · rw [← Nat.le_div_iff_mul_le hn, dist_le_farthest hne]
    exact forall₂_congr fun x _ => Nat.le_div_iff_mul_le hn

/-! ## The scale -/

/-- A factor times the volume, against the limit. -/
theorem factor_lt_iff {c volume : ℚ} (hc : 0 < c) (hv : 0 ≤ volume) {a : ℚ} (ha : a ≠ 0) {n : Nat} (hn : 0 < n) :
    c / a * volume * 0x80 < n ↔ (0 < a → c * 128 * volume < a * n) := by
  have hn' : (0 : ℚ) < n := Nat.cast_pos.2 hn
  rcases lt_or_gt_of_ne ha with h | h
  · refine iff_of_true ?_ fun hpos => absurd hpos (not_lt.2 h.le)
    have hneg : c / a ≤ 0 := (div_neg_of_pos_of_neg hc h).le
    have hle : c / a * volume ≤ 0 := mul_nonpos_of_nonpos_of_nonneg hneg hv
    linarith
  · have hmul : c / a * volume * 0x80 = c * 128 * volume / a := by ring
    rw [hmul, div_lt_iff₀ h, mul_comm (n : ℚ)]
    exact ⟨fun hlt _ => hlt, fun hlt => hlt h⟩

theorem factor_le {c : ℚ} (hc : 0 ≤ c) {a : ℤ} (ha : a ≠ 0) : c / a ≤ c := by
  rcases lt_or_gt_of_ne ha with h | h
  · exact le_trans (div_nonpos_of_nonneg_of_nonpos hc (by exact_mod_cast h.le)) hc
  · exact div_le_self hc (by exact_mod_cast h)

theorem sub_ne_zero_iff (x : UInt8) : (x.toNat : ℚ) - 0x80 ≠ 0 ↔ x ≠ 0x80 := by
  rw [sub_ne_zero, ne_eq, ne_eq, not_iff_not, ← UInt8.toNat_inj]
  norm_cast

theorem sub_pos_iff (x : UInt8) : (0 : ℚ) < x.toNat - 0x80 ↔ 0x80 < x := by
  rw [sub_pos, UInt8.lt_iff_toNat_lt]
  norm_cast

theorem sub_neg_iff (x : UInt8) : (0 : ℚ) < 0x80 - x.toNat ↔ x < 0x80 := by
  rw [sub_pos, UInt8.lt_iff_toNat_lt]
  norm_cast

/-- The larger factor. -/
def factor (data : List UInt8) : ℚ :=
  max (127 / ((peak data).toNat - 0x80)) (128 / (0x80 - (trough data).toNat))

theorem factor_le_128 {data : List UInt8} (hp : peak data ≠ 0x80) (ht : trough data ≠ 0x80) : factor data ≤ 128 := by
  have hp' : ((peak data).toNat : ℤ) - 0x80 ≠ 0 := by exact_mod_cast (sub_ne_zero_iff _).2 hp
  have ht' : 0x80 - ((trough data).toNat : ℤ) ≠ 0 := by
    rw [← neg_ne_zero, neg_sub]
    exact_mod_cast (sub_ne_zero_iff _).2 ht
  have h1 := factor_le (c := 127) (by norm_num) hp'
  have h2 := factor_le (c := 128) (by norm_num) ht'
  push_cast at h1 h2
  exact max_le (by linarith) h2

theorem scaleOf_eq {data : List UInt8} (hlen : 1 < data.length) (volume : ℚ) :
    scaleOf data volume =
      if peak data = 0x80 ∨ trough data = 0x80 then none else some ⌊factor data * volume * 0x80⌋₊.toUInt16 := by
  match data, hlen with
  | x :: y :: rest, _ =>
    have hsub : (0x80 : ℚ) - (trough (x :: y :: rest)).toNat ≠ 0 ↔ trough (x :: y :: rest) ≠ 0x80 := by
      rw [← sub_ne_zero_iff, ← neg_ne_zero, neg_sub]
    have h127 : (0xff : ℚ) - 0x80 = 127 := by norm_num
    have h128 : (0x80 : ℚ) - 0x00 = 128 := by norm_num
    rw [scaleOf, extremes_eq x (List.cons_ne_nil y rest)]
    simp only [h127, h128, quotient]
    by_cases hp : peak (x :: y :: rest) = 0x80
    · have h0 := not_not.1 (mt (sub_ne_zero_iff _).1 (not_not.2 hp))
      rw [if_pos h0, if_pos (Or.inl hp), Option.bind_none]
    · rw [if_neg ((sub_ne_zero_iff _).2 hp), Option.bind_some]
      by_cases ht : trough (x :: y :: rest) = 0x80
      · have h0 := not_not.1 (mt hsub.1 (not_not.2 ht))
        rw [if_pos h0, if_pos (Or.inr ht), Option.map_none]
      · rw [if_neg (hsub.2 ht), Option.map_some, if_neg (not_or.2 ⟨hp, ht⟩), factor, max_comm, max_def_lt]

/-! ## The levels -/

/-- The scale is that of the samples and the volume, which is between 0 and 1. -/
structure Stands (s : Levels) : Prop where
  scaling : s.scaling = scaleOf s.data s.volume
  nonneg : 0 ≤ s.volume
  le_one : s.volume ≤ 1

theorem stands_step {s : Levels} (h : Stands s) (c : Call) : Stands (step s c) := by
  cases c with
  | setSoundData data => exact ⟨rfl, h.nonneg, h.le_one⟩
  | setVolume volume =>
    have hnonneg : (0 : ℚ) ≤ volume.toNat / 100 := by positivity
    rw [step, setVolume]
    split_ifs with hgt
    · exact ⟨rfl, zero_le_one, le_rfl⟩
    · exact ⟨rfl, hnonneg, not_lt.1 hgt⟩

theorem stands_init : Stands {} where
  scaling := rfl
  nonneg := zero_le_one
  le_one := le_refl (1 : ℚ)

theorem stands_of_reach {s : Levels} (h : History.Reach {} step (fun _ _ => True) s) : Stands s :=
  History.inv_of_reach stands_init (fun _ c hs _ => stands_step hs c) h

theorem factor_lt_limit_iff {s : Levels} (h : Stands s) (hp : peak s.data ≠ 0x80) (ht : trough s.data ≠ 0x80) :
    ⌊factor s.data * s.volume * 0x80⌋₊ < limit s.data ↔
      (0x80 < peak s.data → 127 * 128 * s.volume < ((peak s.data).toNat - 0x80) * limit s.data) ∧
      (trough s.data < 0x80 → 128 * 128 * s.volume < (0x80 - (trough s.data).toNat) * limit s.data) := by
  have ht' : (0x80 : ℚ) - (trough s.data).toNat ≠ 0 := by
    rw [← neg_ne_zero, neg_sub, sub_ne_zero_iff]
    exact ht
  have hpos : 0 < limit s.data := Nat.succ_pos _
  rw [Nat.floor_lt' hpos.ne', factor, max_mul_of_nonneg _ _ h.nonneg, max_mul_of_nonneg _ _ (by norm_num), max_lt_iff,
    factor_lt_iff (by norm_num) h.nonneg ((sub_ne_zero_iff _).2 hp) hpos, factor_lt_iff (by norm_num) h.nonneg ht' hpos,
    sub_pos_iff, sub_neg_iff]

theorem one_lt_length {data : List UInt8} {x y : UInt8} (hx : x ∈ data) (hy : y ∈ data) (hne : x ≠ y) :
    1 < data.length := by
  match data with
  | [a] =>
    rw [List.mem_singleton] at hx hy
    exact absurd (hx.trans hy.symm) hne
  | _ :: _ :: _ => exact Nat.succ_lt_succ (Nat.succ_pos _)

theorem farthest_pos {data : List UInt8} {x : UInt8} (hx : x ∈ data) (hne : x ≠ 0x80) : 0 < farthest data := by
  refine Nat.lt_of_lt_of_le ?_ ((dist_le_farthest (List.ne_nil_of_mem hx) _).1 (Nat.le_refl _) x hx)
  rw [dist, Int.natAbs_pos, sub_ne_zero]
  exact fun h => hne (UInt8.toNat_inj.1 (by exact_mod_cast h))

/-- **Every level is between 0 and the wrap value, and is what is computed, if and only if** the factor of either side
leaves room for the sample that is farthest out. -/
theorem levels_bounded_iff {s : Levels} (hs : History.Reach {} step (fun _ _ => True) s)
    (habove : ∃ x ∈ s.data, 0x80 < x) (hbelow : ∃ x ∈ s.data, x < 0x80) (wrap : UInt16) :
    Bounded s wrap ↔ Fits s wrap := by
  have h := stands_of_reach hs
  obtain ⟨x, hx, hgt⟩ := habove
  obtain ⟨y, hy, hlt⟩ := hbelow
  have hlen : 1 < s.data.length := one_lt_length hx hy (UInt8.ne_of_lt (UInt8.lt_trans hlt hgt)).symm
  have hfar : 0 < farthest s.data := farthest_pos hx (UInt8.ne_of_lt hgt).symm
  by_cases hp : peak s.data = 0x80 ∨ trough s.data = 0x80
  · refine iff_of_false ?_ fun hfit => hp.elim hfit.1 hfit.2.1
    rintro ⟨scale, hscale, -⟩
    rw [h.scaling, scaleOf_eq hlen, if_pos hp] at hscale
    cases hscale
  · have hscaling : s.scaling = some ⌊factor s.data * s.volume * 0x80⌋₊.toUInt16 := by
      rw [h.scaling, scaleOf_eq hlen, if_neg hp]
    obtain ⟨hpeak, htrough⟩ := not_or.1 hp
    have hle : factor s.data * s.volume * 0x80 ≤ (0x4000 : ℕ) := by
      have h1 := mul_le_mul_of_nonneg_right (factor_le_128 hpeak htrough) h.nonneg
      have h2 := h.le_one
      push_cast
      linarith
    have hnat : ⌊factor s.data * s.volume * 0x80⌋₊ ≤ 0x4000 := Nat.floor_le_of_le hle
    have hscale : (⌊factor s.data * s.volume * 0x80⌋₊.toUInt16).toNat = ⌊factor s.data * s.volume * 0x80⌋₊ := by
      rw [Nat.toUInt16_eq, UInt16.toNat_ofNat']
      exact Nat.mod_eq_of_lt (by omega)
    rw [bounded_iff hscaling, hscale, ← lt_limit_iff (List.ne_nil_of_mem hx) hfar, factor_lt_limit_iff h hpeak htrough]
    exact ⟨fun hb => ⟨hpeak, htrough, hb⟩, fun hb => hb.2.2⟩

/-- Some samples at full volume. -/
def loaded (data : List UInt8) : Levels := { data, volume := 1, scaling := scaleOf data 1 }

theorem reach_loaded (data : List UInt8) : History.Reach {} step (fun _ _ => True) (loaded data) :=
  .step (e := Call.setSoundData data) .init trivial

theorem levels_bounded_even : Bounded (loaded [0xff, 0x01, 0x80]) 5000 :=
  (levels_bounded_iff (reach_loaded _) ⟨0xff, by decide, by decide⟩ ⟨0x01, by decide, by decide⟩ 5000).2
    ⟨by decide, by decide, .inr ⟨by decide +kernel, by decide +kernel⟩⟩

/-- With one sample a little below the middle the factor for that side is used, and the high sample is far too loud. -/
theorem loud_side_wraps : ¬ Bounded (loaded [0xff, 0x7f, 0x80]) 5000 := by
  have hscale : (loaded [0xff, 0x7f, 0x80]).scaling = some 0x4000 := by decide +kernel
  rw [bounded_iff hscale]
  rintro (h | h)
  · exact absurd h (by decide)
  · exact absurd (h 0xff List.mem_cons_self) (by decide)

end Levels
end Pico
