import Mathlib
import NodeScript.Proofs.Limits.Numbers

/-!
Doubles as exact fractions. Taking a double apart agrees with how its bits are unpacked, a finite
one has only one canonical form, so its value determines it up to the sign of zero, and an integer
is rounded to an integer.
-/

namespace NodeScript

open Float.Model (UnpackedFloat)
open Float.Model.UnpackedFloat (Sign)

namespace Dyadic

/-! ### Bits -/

theorem toNat_append {v w : Nat} (x : BitVec v) (y : BitVec w) :
    (x ++ y).toNat = x.toNat * 2 ^ w + y.toNat := by
  rw [BitVec.toNat_append, ← Nat.shiftLeft_add_eq_or_of_lt y.isLt, Nat.shiftLeft_eq]

/-- The fields of a double as they stand in its bits. -/
theorem toNat_unpack (b : BitVec 64) :
    (@UnpackedFloat.unpackMantissa .binary64 b).toNat = b.toNat % 2 ^ 52 ∧
      (@UnpackedFloat.unpackSign .binary64 b).toNat = b.toNat / 2 ^ 63 := by
  have hb : b.toNat < 2 ^ 64 := b.isLt
  constructor
  · simp [UnpackedFloat.unpackMantissa]
  · simp [UnpackedFloat.unpackSign, Nat.shiftRight_eq_div_pow]
    omega

theorem toBitVec_ofBitVec (b : BitVec 1) : (Sign.ofBitVec b).toBitVec = b := by
  revert b
  decide

/-- The three fields make up the double again. -/
theorem packComponents_fields {b : BitVec 64} {e : BitVec 11} {m : BitVec 52}
    (he : exponentBits b = e) (hm : @UnpackedFloat.unpackMantissa .binary64 b = m) :
    UnpackedFloat.packComponents .binary64
      (Sign.ofBitVec (@UnpackedFloat.unpackSign .binary64 b)) e m = b := by
  obtain ⟨hmantissa, hsign⟩ := toNat_unpack b
  have hexponent := toNat_exponentBits b
  rw [he] at hexponent
  rw [hm] at hmantissa
  apply BitVec.eq_of_toNat_eq
  rw [UnpackedFloat.packComponents, toBitVec_ofBitVec, toNat_append, toNat_append, hsign, hexponent,
    hmantissa]
  change (b.toNat / 2 ^ 63 * 2 ^ 11 + b.toNat / 2 ^ 52 % 2 ^ 11) * 2 ^ 52 + b.toNat % 2 ^ 52 =
    b.toNat
  omega

theorem toNat_significand (m : BitVec 52) : (1#1 ++ m).toNat = 2 ^ 52 + m.toNat := by
  rw [toNat_append]
  rfl

/-- Unpacking loses nothing of a finite double. -/
theorem pack_unpack {b : BitVec 64} (h : exponentBits b ≠ -1#11) :
    UnpackedFloat.pack .binary64 (UnpackedFloat.unpack .binary64 b) = b := by
  have hbias : Float.Model.Format.binary64.exponentBias = 1023 := by decide
  have hlt : (exponentBits b).toNat + 1 < 2048 := by
    have hle := (exponentBits b).isLt
    have hne : (exponentBits b).toNat ≠ 2047 := fun he => h (BitVec.eq_of_toNat_eq he)
    omega
  have hlt52 : (@UnpackedFloat.unpackMantissa .binary64 b).toNat < 2 ^ 52 :=
    (@UnpackedFloat.unpackMantissa .binary64 b).isLt
  unfold UnpackedFloat.unpack
  dsimp only
  rw [if_neg h]
  split
  · next hzero =>
    split
    · next hm => exact packComponents_fields hzero hm
    · next hm =>
      have hlog : (@UnpackedFloat.unpackMantissa .binary64 b).toNat.log2 < 52 :=
        (Nat.log2_lt fun hzero => hm (BitVec.eq_of_toNat_eq hzero)).2 hlt52
      have hfull : Float.Model.Format.binary64.mantissaBits = 53 := by decide
      simp only [UnpackedFloat.pack, hzero, hfull]
      rw [if_neg (by simp [Float.Model.Format.exponentBias]), if_neg (by omega)]
      exact packComponents_fields hzero (by simp)
  · have hback : ((exponentBits b).toNat - ((1023 : Nat) + (52 : Nat)) + (1023 : Nat) + (52 : Nat) :
        Int).toNat = (exponentBits b).toNat := by
      omega
    have hlog : (2 ^ 52 + (@UnpackedFloat.unpackMantissa .binary64 b).toNat).log2 = 52 := by
      rw [Nat.log2_eq_iff (by omega)]
      omega
    simp only [UnpackedFloat.pack, hbias, hback, toNat_significand, hlog]
    rw [if_neg (by omega), if_pos (by decide)]
    refine packComponents_fields (by simp) (BitVec.eq_of_toNat_eq ?_)
    rw [BitVec.toNat_ofNat, Nat.add_mod_left, Nat.mod_eq_of_lt hlt52]

theorem toNat_toBits_ofBits (bits : Nat) (hbits : bits < 2 ^ 64)
    (hfield : bits / 2 ^ 52 % 2 ^ 11 ≠ 2047) :
    (Float.ofBits (UInt64.ofNat bits)).toBits.toNat = bits := by
  have hof : (UInt64.ofNat bits).toBitVec.toNat = bits := Nat.mod_eq_of_lt hbits
  have hexponent : exponentBits (UInt64.ofNat bits).toBitVec ≠ -1#11 := by
    intro he
    have hnat := toNat_exponentBits (UInt64.ofNat bits).toBitVec
    rw [he, hof] at hnat
    exact hfield hnat.symm
  change (UnpackedFloat.pack .binary64
    (UnpackedFloat.unpack .binary64 (UInt64.ofNat bits).toBitVec)).toNat = bits
  rw [pack_unpack hexponent, hof]

theorem ofBitVec_eq_negative (b : BitVec 1) :
    (Sign.ofBitVec b == .negative) = decide (1 ≤ b.toNat) := by
  revert b
  decide

/-- A finite double taken apart; none for an infinity and for what is no number. -/
def ofUnpacked? : UnpackedFloat → Option Dyadic
  | .infinity _ | .notANumber => none
  | .zero s => some ⟨s == .negative, 0, -1074⟩
  | .finite s m e _ => some ⟨s == .negative, m, e⟩

theorem ofFloat?_eq (x : Float) : ofFloat? x = ofUnpacked? x.toModel.unpack := by
  change ofFloat? x = ofUnpacked? (UnpackedFloat.unpack .binary64 x.toBits.toBitVec)
  have hpow : twoPow 52 = 2 ^ 52 ∧ twoPow 63 = 2 ^ 63 := ⟨rfl, rfl⟩
  have hbias : Float.Model.Format.binary64.exponentBias = 1023 := by decide
  obtain ⟨hmantissa, hsign⟩ := toNat_unpack x.toBits.toBitVec
  have hexponent := toNat_exponentBits x.toBits.toBitVec
  have hbits : x.toBits.toBitVec.toNat < 2 ^ 64 := x.toBits.toBitVec.isLt
  have hnat : x.toBits.toNat = x.toBits.toBitVec.toNat := rfl
  simp only [ofFloat?, hpow, hnat]
  generalize x.toBits.toBitVec = b at *
  have hfield : b.toNat % 2 ^ 63 / 2 ^ 52 = (exponentBits b).toNat := by omega
  have hfraction : b.toNat % 2 ^ 63 % 2 ^ 52 =
      (@UnpackedFloat.unpackMantissa .binary64 b).toNat := by omega
  have hnegative : decide (2 ^ 63 ≤ b.toNat) =
      (Sign.ofBitVec (@UnpackedFloat.unpackSign .binary64 b) == .negative) := by
    rw [ofBitVec_eq_negative, hsign]
    exact decide_eq_decide.2 (by omega)
  have hall : (exponentBits b).toNat = 2047 ↔ exponentBits b = -1#11 :=
    ⟨fun h => BitVec.eq_of_toNat_eq h, fun h => by rw [h]; rfl⟩
  have hnone : (exponentBits b).toNat = 0 ↔ exponentBits b = 0#11 :=
    ⟨fun h => BitVec.eq_of_toNat_eq h, fun h => by rw [h]; rfl⟩
  rw [hfield, hfraction, hnegative]
  simp only [hall, hnone, UnpackedFloat.unpack]
  split
  · split <;> rfl
  · split
    · next hzero =>
      split
      · next hm => simp [ofUnpacked?, hm]
      · simp [ofUnpacked?, hzero, hbias]
    · simp only [ofUnpacked?, hbias, toNat_significand]
      rfl

/-! ### Values -/

def magnitude (d : Dyadic) : ℚ := d.significand * 2 ^ d.exponent

/-- The exact value. -/
def value (d : Dyadic) : ℚ := if d.negative then -d.magnitude else d.magnitude

/-- The form of every finite double: either its exponent is the least one, or its significand is as
large as it may be. -/
structure Canonical (d : Dyadic) : Prop where
  significand_lt : d.significand < 2 ^ 53
  exponent_ge : -1074 ≤ d.exponent
  full : d.exponent = -1074 ∨ 2 ^ 52 ≤ d.significand

theorem canonical_of_ofFloat? {x : Float} {d : Dyadic} (h : ofFloat? x = some d) : d.Canonical := by
  have hpow : twoPow 52 = 2 ^ 52 ∧ twoPow 63 = 2 ^ 63 := ⟨rfl, rfl⟩
  simp only [ofFloat?, hpow] at h
  split at h
  · cases h
  · split at h
    all_goals
      cases h
      refine ⟨?_, ?_, ?_⟩ <;> dsimp only <;> omega

theorem fraction_value (d : Dyadic) : (d.fraction.1 : ℚ) / d.fraction.2 = d.value := by
  have hscale : (2 : ℚ) ^ d.exponent = 2 ^ d.exponent.toNat / 2 ^ (-d.exponent).toNat := by
    rw [← zpow_natCast, ← zpow_natCast, ← zpow_sub₀ two_ne_zero]
    congr 1
    omega
  have hpow (k : Nat) : twoPow k = 2 ^ k := rfl
  rw [value, magnitude, hscale, fraction, hpow, hpow]
  split
  · push_cast
    ring
  · push_cast
    ring

/-- A magnitude has only one canonical form: with a larger exponent the significand of the other
one would have to be too large. -/
theorem Canonical.exponent_le {d e : Dyadic} (hd : d.Canonical) (he : e.Canonical)
    (h : d.magnitude = e.magnitude) :
    e.exponent ≤ d.exponent := by
  by_contra! hlt
  obtain ⟨k, hk⟩ : ∃ k : Nat, e.exponent = d.exponent + (k + 1 : Nat) :=
    ⟨(e.exponent - d.exponent - 1).toNat, by omega⟩
  have hnat : d.significand = e.significand * 2 ^ (k + 1) := by
    have hpos : (0 : ℚ) < 2 ^ d.exponent := by positivity
    rw [magnitude, magnitude, hk, zpow_add₀ two_ne_zero, zpow_natCast,
      mul_comm (2 ^ d.exponent : ℚ), ← mul_assoc] at h
    exact_mod_cast mul_right_cancel₀ hpos.ne' h
  have hfull : 2 ^ 52 ≤ e.significand := by
    have := hd.exponent_ge
    exact he.full.resolve_left (by omega)
  have hdouble : 2 ≤ 2 ^ (k + 1) := Nat.le_self_pow (Nat.succ_ne_zero k) 2
  have hproduct := Nat.mul_le_mul hfull hdouble
  have := hd.significand_lt
  omega

theorem Canonical.eq_of_magnitude {d e : Dyadic} (hd : d.Canonical) (he : e.Canonical)
    (h : d.magnitude = e.magnitude) :
    d.significand = e.significand ∧ d.exponent = e.exponent := by
  have hexponent : d.exponent = e.exponent :=
    le_antisymm (he.exponent_le hd h.symm) (hd.exponent_le he h)
  rw [magnitude, magnitude, hexponent] at h
  have hpos : (0 : ℚ) < 2 ^ e.exponent := by positivity
  exact ⟨by exact_mod_cast mul_right_cancel₀ hpos.ne' h, hexponent⟩

theorem magnitude_pos {d : Dyadic} (h : 0 < d.significand) : 0 < d.magnitude := by
  rw [magnitude]
  positivity

theorem value_ne_zero (negative : Bool) {m : Nat} (e : Int) (hm : 0 < m) :
    value ⟨negative, m, e⟩ ≠ 0 := by
  have hpos := magnitude_pos (d := ⟨negative, m, e⟩) hm
  cases negative
  · exact hpos.ne'
  · exact neg_ne_zero.2 hpos.ne'

/-- Apart from zero a value has only one canonical form. -/
theorem value_eq_iff {s t : Bool} {m n : Nat} {e f : Int} (hm : 0 < m) (hn : 0 < n)
    (hd : Canonical ⟨s, m, e⟩) (hd' : Canonical ⟨t, n, f⟩) :
    value ⟨s, m, e⟩ = value ⟨t, n, f⟩ ↔ s = t ∧ m = n ∧ e = f := by
  have hleft := magnitude_pos (d := ⟨s, m, e⟩) hm
  have hright := magnitude_pos (d := ⟨t, n, f⟩) hn
  constructor
  · intro h
    have hsign : s = t := by
      by_contra hne
      cases s <;> cases t <;> simp [value] at h hne <;> linarith
    subst hsign
    refine ⟨rfl, hd.eq_of_magnitude hd' ?_⟩
    cases s
    · exact h
    · exact neg_inj.1 h
  · rintro ⟨rfl, rfl, rfl⟩
    rfl

/-! ### Rounding integers -/

/-- The double that is made from bits, the sign apart. -/
theorem ofFloat?_ofBits (bits : Nat) (hbits : bits < 2047 * 2 ^ 52) (negative : Bool) :
    ofFloat? (Float.ofBits (UInt64.ofNat (bits + if negative then twoPow 63 else 0))) =
      some (if bits / 2 ^ 52 = 0 then ⟨negative, bits, -1074⟩
        else ⟨negative, 2 ^ 52 + bits % 2 ^ 52, (bits / 2 ^ 52 : Nat) - 1075⟩) := by
  have hpow : twoPow 52 = 2 ^ 52 ∧ twoPow 63 = 2 ^ 63 := ⟨rfl, rfl⟩
  have hnat := toNat_toBits_ofBits (bits + if negative then 2 ^ 63 else 0)
    (by split <;> omega) (by split <;> omega)
  have hrest : (bits + if negative then 2 ^ 63 else 0) % 2 ^ 63 = bits := by
    split <;> omega
  have hsign : decide (2 ^ 63 ≤ bits + if negative then 2 ^ 63 else 0) = negative := by
    cases negative
    · simp
      omega
    · simp
  simp only [ofFloat?, hpow, hnat, hrest, hsign]
  rw [if_neg (by omega)]
  split
  · next hzero => rw [Nat.mod_eq_of_lt (by omega)]
  · rfl

theorem binaryExponent_one {n : Nat} (hn : n ≠ 0) : binaryExponent n 1 = n.log2 := by
  have hle : 1 * 2 ^ ((n.log2 : Int) - (0 : Nat)).toNat ≤
      n * 2 ^ (-((n.log2 : Int) - (0 : Nat))).toNat := by
    have hexponents : ((n.log2 : Int) - (0 : Nat)).toNat = n.log2 ∧
        (-((n.log2 : Int) - (0 : Nat))).toNat = 0 := by omega
    rw [hexponents.1, hexponents.2, Nat.one_mul, Nat.pow_zero, Nat.mul_one]
    exact Nat.log2_self_le hn
  unfold binaryExponent twoPow
  exact (if_pos hle).trans (Int.sub_zero _)

theorem roundBits_lt {n : Nat} (hn : n < doubleLimit) : roundBits n 1 < 2047 * 2 ^ 52 := by
  have hlimit : roundBits n 1 ≠ 2047 * 2 ^ 52 := by
    rw [Ne, roundBits_eq_iff Nat.one_pos, Nat.mul_one, Nat.not_le]
    exact hn
  exact Nat.lt_of_le_of_ne (roundBits_le n 1) hlimit

/-- The bits that an integer within the doubles is rounded to. -/
theorem roundBits_one {n : Nat} (hne : n ≠ 0) (hn : n < doubleLimit) :
    roundBits n 1 = (n.log2 + 1022) * 2 ^ 52 +
      roundQuotient (n * 2 ^ (52 - n.log2)) (2 ^ (n.log2 - 52)) := by
  have hlt := roundBits_lt hn
  have hq : max ((n.log2 : Int) - 52) (-1074) = (n.log2 : Int) - 52 := by omega
  have hscales : (-((n.log2 : Int) - 52)).toNat = 52 - n.log2 ∧
      ((n.log2 : Int) - 52).toNat = n.log2 - 52 ∧
      ((n.log2 : Int) - 52 + 1074).toNat = n.log2 + 1022 := by omega
  have hpow (k : Nat) : twoPow k = 2 ^ k := rfl
  simp only [roundBits, if_neg hne, binaryExponent_one hne, hq, hscales, hpow, Nat.one_mul]
    at hlt ⊢
  exact Nat.min_eq_left (Nat.le_of_lt ((min_lt_iff.1 hlt).resolve_right (Nat.lt_irrefl _)))

/-- With an exponent that is not negative the magnitude is an integer. -/
theorem exists_magnitude_eq {d : Dyadic} (h : 0 ≤ d.exponent) : ∃ m : Nat, d.magnitude = m := by
  refine ⟨d.significand * 2 ^ d.exponent.toNat, ?_⟩
  rw [magnitude, ← Int.toNat_of_nonneg h, zpow_natCast]
  push_cast
  rfl

/-- A double that an integer is rounded to is an integer. -/
theorem exists_round_eq {n : Nat} (hn : n < doubleLimit) (negative : Bool) :
    ∃ (d : Dyadic) (m : Nat), ofFloat? (round negative n 1) = some d ∧ d.negative = negative ∧
      d.magnitude = m := by
  by_cases hne : n = 0
  · subst hne
    refine ⟨_, 0, ofFloat?_ofBits 0 (by omega) negative, ?_, ?_⟩ <;> simp [magnitude]
  have hof := ofFloat?_ofBits _ (roundBits_lt hn) negative
  have hbits := roundBits_one hne hn
  have hlog := Nat.log2_self_le hne
  have hlog' : n < 2 ^ (n.log2 + 1) := Nat.lt_log2_self
  have hnormal : roundBits n 1 / 2 ^ 52 ≠ 0 := by omega
  rw [if_neg hnormal] at hof
  by_cases hlarge : 52 ≤ n.log2
  · -- The units of the significand are integers themselves.
    have hfull : 2 ^ 52 ≤ roundQuotient (n * 2 ^ (52 - n.log2)) (2 ^ (n.log2 - 52)) := by
      refine le_roundQuotient (Nat.two_pow_pos _) ?_
      rw [← Nat.pow_add, Nat.sub_add_cancel hlarge, Nat.sub_eq_zero_of_le hlarge, Nat.pow_zero,
        Nat.mul_one]
      exact hlog
    obtain ⟨m, hm⟩ := exists_magnitude_eq (d := ⟨negative, 2 ^ 52 + roundBits n 1 % 2 ^ 52,
      (roundBits n 1 / 2 ^ 52 : Nat) - 1075⟩) (by dsimp only; omega)
    exact ⟨_, m, hof, rfl, hm⟩
  · -- The integer fits into the significand as it is.
    have hexact : roundQuotient (n * 2 ^ (52 - n.log2)) (2 ^ (n.log2 - 52)) =
        n * 2 ^ (52 - n.log2) := by
      rw [Nat.sub_eq_zero_of_le (by omega : n.log2 ≤ 52)]
      simp [roundQuotient, Nat.mod_one]
    obtain ⟨k, hk⟩ : ∃ k, 52 = n.log2 + k := ⟨52 - n.log2, by omega⟩
    have hsub : 52 - n.log2 = k := by omega
    rw [hexact, hsub] at hbits
    have hlow : 2 ^ 52 ≤ n * 2 ^ k := by
      rw [hk, Nat.pow_add]
      exact Nat.mul_le_mul_right _ hlog
    have hhigh : n * 2 ^ k < 2 ^ 53 := by
      have hsum : 53 = n.log2 + 1 + k := by omega
      rw [hsum, Nat.pow_add]
      exact Nat.mul_lt_mul_of_pos_right hlog' (Nat.two_pow_pos k)
    have hsignificand : 2 ^ 52 + roundBits n 1 % 2 ^ 52 = n * 2 ^ k := by omega
    have hexponent : ((roundBits n 1 / 2 ^ 52 : Nat) : Int) - 1075 = -k := by omega
    rw [hsignificand, hexponent] at hof
    refine ⟨_, n, hof, rfl, ?_⟩
    rw [magnitude, zpow_neg, zpow_natCast]
    push_cast
    exact mul_inv_cancel_right₀ (by positivity) _

end Dyadic

end NodeScript
