import Mathlib
import NodeScript.Number.Printer

/-!
Limits of numbers. An integer is turned into a double only if it is nearer to the largest one than
to the next power of two, and written only with so many digits.
-/

namespace NodeScript

/-- The least number with no nearest double: halfway between the largest double and the power of two
that would come after it. -/
def doubleLimit : Nat := 2 ^ 1024 - 2 ^ 970

namespace Dyadic

variable {num den : Nat}

/-! ### The power of two below a fraction -/

/-- An inequality of fractions scaled by powers of two, at any other scale that is as good. -/
theorem mul_two_pow_le {m n p q x y : Nat} (h : m * 2 ^ p ≤ n * 2 ^ q) (hxy : y + q ≤ x + p) :
    m * 2 ^ y ≤ n * 2 ^ x := by
  refine Nat.le_of_mul_le_mul_right ?_ (Nat.two_pow_pos q)
  calc m * 2 ^ y * 2 ^ q = m * 2 ^ (y + q) := by rw [Nat.pow_add, Nat.mul_assoc]
    _ ≤ m * 2 ^ (x + p) := Nat.mul_le_mul_left m (Nat.pow_le_pow_right (by decide) hxy)
    _ = m * 2 ^ p * 2 ^ x := by rw [Nat.add_comm, Nat.pow_add, Nat.mul_assoc]
    _ ≤ n * 2 ^ q * 2 ^ x := Nat.mul_le_mul_right _ h
    _ = n * 2 ^ x * 2 ^ q := by ring

theorem le_of_le_binaryExponent (hnum : num ≠ 0) {x y : Nat}
    (h : (y : Int) - x ≤ binaryExponent num den) : den * 2 ^ y ≤ num * 2 ^ x := by
  unfold binaryExponent twoPow at h
  dsimp only at h
  split at h
  · next hle => exact mul_two_pow_le hle (by omega)
  · calc den * 2 ^ y ≤ 2 ^ (den.log2 + 1) * 2 ^ y :=
          Nat.mul_le_mul_right _ Nat.lt_log2_self.le
      _ = 2 ^ (den.log2 + 1 + y) := (Nat.pow_add ..).symm
      _ ≤ 2 ^ (num.log2 + x) := Nat.pow_le_pow_right (by decide) (by omega)
      _ = 2 ^ num.log2 * 2 ^ x := Nat.pow_add ..
      _ ≤ num * 2 ^ x := Nat.mul_le_mul_right _ (Nat.log2_self_le hnum)

theorem lt_of_binaryExponent_lt (hden : den ≠ 0) {x y : Nat}
    (h : binaryExponent num den < (y : Int) - x) : num * 2 ^ x < den * 2 ^ y := by
  unfold binaryExponent twoPow at h
  dsimp only at h
  split at h
  · calc num * 2 ^ x < 2 ^ (num.log2 + 1) * 2 ^ x :=
          Nat.mul_lt_mul_of_pos_right Nat.lt_log2_self (Nat.two_pow_pos x)
      _ = 2 ^ (num.log2 + 1 + x) := (Nat.pow_add ..).symm
      _ ≤ 2 ^ (den.log2 + y) := Nat.pow_le_pow_right (by decide) (by omega)
      _ = 2 ^ den.log2 * 2 ^ y := Nat.pow_add ..
      _ ≤ den * 2 ^ y := Nat.mul_le_mul_right _ (Nat.log2_self_le hden)
  · next hlt =>
    refine Nat.lt_of_not_le fun hle => hlt (mul_two_pow_le hle ?_)
    omega

/-! ### Rounding -/

theorem roundQuotient_le {bound : Nat} (h : num < den * bound) :
    roundQuotient num den ≤ bound := by
  have hq : num / den < bound := Nat.div_lt_of_lt_mul h
  unfold roundQuotient
  dsimp only
  split <;> omega

theorem le_roundQuotient (hden : 0 < den) {bound : Nat} (h : den * bound ≤ num) :
    bound ≤ roundQuotient num den := by
  have hq : bound ≤ num / den := (Nat.le_div_iff_mul_le hden).2 (by rwa [Nat.mul_comm])
  unfold roundQuotient
  dsimp only
  split <;> omega

/-- The last quotient before a power of two is odd, so it is rounded up from halfway on. -/
theorem roundQuotient_eq_iff (hden : 0 < den) (h : num < den * 2 ^ 53) :
    2 ^ 53 ≤ roundQuotient num den ↔ (2 ^ 54 - 1) * den ≤ 2 * num := by
  have hq : num / den < 2 ^ 53 := Nat.div_lt_of_lt_mul h
  have hsum := Nat.div_add_mod num den
  have hrest := Nat.mod_lt num hden
  unfold roundQuotient
  dsimp only
  generalize num % den = rest at *
  obtain hlast | hbefore : num / den = 2 ^ 53 - 1 ∨ num / den ≤ 2 ^ 53 - 2 := by omega
  · rw [hlast] at hsum ⊢
    split
    · next hdown =>
      simp only [Nat.reducePow, Nat.reduceSub, Nat.reduceMod, Bool.or_eq_true, decide_eq_true_eq,
        Bool.and_eq_true, beq_iff_eq, Nat.one_ne_zero, and_false, or_false] at hdown
      omega
    · next hup =>
      simp only [Bool.or_eq_true, decide_eq_true_eq, not_or, Nat.not_lt] at hup
      omega
  · have hbound := Nat.mul_le_mul_left den hbefore
    split <;> omega

/-- The nearest double is an infinity from the limit on, whatever the denominator. -/
theorem roundBits_eq_iff (hden : 0 < den) :
    roundBits num den = 2047 * 2 ^ 52 ↔ doubleLimit * den ≤ num := by
  have hlimit : 2 ^ 1023 ≤ doubleLimit ∧ doubleLimit ≤ 2 ^ 1024 := by decide +kernel
  unfold roundBits twoPow
  split
  · next hnum =>
    subst hnum
    have hpos : 0 < doubleLimit * den := Nat.mul_pos (by decide +kernel) hden
    omega
  · next hnum =>
    dsimp only
    generalize hq : max (binaryExponent num den - 52) (-1074) = q
    change min ((q + 1074).toNat * 2 ^ 52 +
      roundQuotient (num * 2 ^ (-q).toNat) (den * 2 ^ q.toNat)) (2047 * 2 ^ 52) = _ ↔ _
    have hscaled : 0 < den * 2 ^ q.toNat := Nat.mul_pos hden (Nat.two_pow_pos _)
    have hbelow : num * 2 ^ (-q).toNat < den * 2 ^ q.toNat * 2 ^ 53 := by
      rw [Nat.mul_assoc, ← Nat.pow_add]
      exact lt_of_binaryExponent_lt hden.ne' (by omega)
    obtain hsmall | rfl | hlarge : q ≤ 970 ∨ q = 971 ∨ 972 ≤ q := by omega
    · have hround := roundQuotient_le hbelow
      have hnum' : num * 2 ^ 0 < den * 2 ^ 1023 := lt_of_binaryExponent_lt hden.ne' (by omega)
      have hden' := Nat.mul_le_mul_left den hlimit.1
      rw [Nat.mul_comm den doubleLimit] at hden'
      omega
    · have hround := roundQuotient_eq_iff hscaled hbelow
      have hscale : (2 ^ 54 - 1) * (den * 2 ^ 971) = 2 * (doubleLimit * den) := by
        have : (2 ^ 54 - 1) * 2 ^ 971 = 2 * doubleLimit := by decide +kernel
        rw [Nat.mul_left_comm, this]
        ring
      have hscales : (-(971 : Int)).toNat = 0 ∧ (971 : Int).toNat = 971 := ⟨rfl, rfl⟩
      rw [hscales.1, hscales.2, hscale] at hround
      rw [hscales.1, hscales.2]
      omega
    · have hfull : den * 2 ^ q.toNat * 2 ^ 52 ≤ num * 2 ^ (-q).toNat := by
        rw [Nat.mul_assoc, ← Nat.pow_add]
        exact le_of_le_binaryExponent hnum (by omega)
      have hround := le_roundQuotient hscaled hfull
      have hnum' : den * 2 ^ 1024 ≤ num * 2 ^ 0 := le_of_le_binaryExponent hnum (by omega)
      have hden' := Nat.mul_le_mul_left den hlimit.2
      rw [Nat.mul_comm den doubleLimit] at hden'
      omega

/-! ### Infinities -/

section

open Float.Model

/-- The bits of the exponent of a double. -/
abbrev exponentBits (b : BitVec 64) : BitVec 11 :=
  @UnpackedFloat.unpackExponent .binary64 b

theorem toNat_exponentBits (b : BitVec 64) : (exponentBits b).toNat = b.toNat / 2 ^ 52 % 2 ^ 11 := by
  simp [exponentBits, UnpackedFloat.unpackExponent, Nat.shiftRight_eq_div_pow]

theorem exponentBits_of_isInf {b : BitVec 64}
    (h : (UnpackedFloat.unpack .binary64 b).isInf = true) : exponentBits b = -1#11 := by
  unfold UnpackedFloat.unpack at h
  dsimp only at h
  split at h
  · assumption
  · split at h
    · split at h <;> cases h
    · cases h

/-- Packing again what is no infinity does not make it one. -/
theorem exponentBits_pack {b : BitVec 64} (h : exponentBits b ≠ -1#11) :
    exponentBits (UnpackedFloat.pack .binary64 (UnpackedFloat.unpack .binary64 b)) ≠ -1#11 := by
  have hlt : (exponentBits b).toNat + 1 < 2048 := by
    have hle := (exponentBits b).isLt
    have hne : (exponentBits b).toNat ≠ 2047 := fun he => h (BitVec.eq_of_toNat_eq he)
    omega
  unfold UnpackedFloat.unpack
  dsimp only
  rw [if_neg h]
  split
  · next hzero =>
    split
    · simp [UnpackedFloat.pack, UnpackedFloat.packedZero]
    · simp only [UnpackedFloat.pack, hzero]
      split
      · next hbig => simp [Format.exponentBias] at hbig
      · split <;> simp [Format.exponentBias]
  · have hbias : Format.binary64.exponentBias = 1023 := by decide
    have hback : ((exponentBits b).toNat - ((1023 : Nat) + (52 : Nat)) + (1023 : Nat) + (52 : Nat) :
        Int).toNat = (exponentBits b).toNat := by
      omega
    simp only [UnpackedFloat.pack, hbias, hback]
    rw [if_neg (by omega)]
    split
    · simpa using h
    · simp

theorem isInf_ofBits {bits : Nat} (hbits : bits < 2 ^ 64)
    (h : (Float.ofBits (UInt64.ofNat bits)).isInf = true) : bits / 2 ^ 52 % 2 ^ 11 = 2047 := by
  have hexp : exponentBits (UInt64.ofNat bits).toBitVec = -1#11 := by
    by_contra hne
    exact exponentBits_pack hne (exponentBits_of_isInf h)
  have hnat := toNat_exponentBits (UInt64.ofNat bits).toBitVec
  rw [hexp] at hnat
  have hof : (UInt64.ofNat bits).toBitVec.toNat = bits := Nat.mod_eq_of_lt hbits
  rw [hof] at hnat
  exact hnat.symm

end

/-- The bits of the infinity are the largest. -/
theorem roundBits_le (num den : Nat) : roundBits num den ≤ 2047 * 2 ^ 52 := by
  unfold roundBits
  split
  · exact Nat.zero_le _
  · exact Nat.min_le_right _ _

/-- A fraction has no nearest double exactly from the limit on. -/
theorem round_isInf_iff (hden : 0 < den) (negative : Bool) :
    (round negative num den).isInf = true ↔ doubleLimit * den ≤ num := by
  rw [← roundBits_eq_iff hden]
  have hle := roundBits_le num den
  constructor
  · intro h
    have hfield := isInf_ofBits (by cases negative <;> simp [twoPow] <;> omega) h
    have hsign : twoPow 63 = 2 ^ 63 := rfl
    cases negative <;> simp only [hsign, Bool.false_eq_true, if_false, if_true] at hfield <;> omega
  · intro h
    rw [round, h]
    cases negative <;> decide +kernel

end Dyadic

theorem Dyadic.ofFloat?_le {x : Float} {d : Dyadic} (h : ofFloat? x = some d) :
    d.significand ≤ 2 ^ 53 - 1 ∧ d.exponent ≤ 971 := by
  have hpow : twoPow 52 = 2 ^ 52 ∧ twoPow 63 = 2 ^ 63 := ⟨rfl, rfl⟩
  simp only [ofFloat?, hpow] at h
  split at h
  · cases h
  · split at h
    all_goals
      cases h
      dsimp only
      omega

/-- What a double counts is below the limit. -/
theorem Dyadic.significand_mul_lt {x : Float} {d : Dyadic} (h : ofFloat? x = some d) :
    d.significand * 2 ^ d.exponent.toNat < doubleLimit := by
  obtain ⟨hsignificand, hexponent⟩ := ofFloat?_le h
  have hlargest : (2 ^ 53 - 1) * 2 ^ 971 < doubleLimit := by decide +kernel
  have hle (k : Nat) (hk : d.exponent.toNat ≤ k) :
      d.significand * 2 ^ d.exponent.toNat ≤ (2 ^ 53 - 1) * 2 ^ k :=
    Nat.mul_le_mul hsignificand (Nat.pow_le_pow_right Nat.two_pos hk)
  exact Nat.lt_of_le_of_lt (hle 971 (by omega)) hlargest

/-! ### Faults of numbers -/

namespace Number

variable {a b : Number} {f : Fault}

theorem toFloat_eq_error (h : a.toFloat = .error f) :
    f = .integerTooLarge ∧ ∃ n : Int, a = .int n ∧ doubleLimit ≤ n.natAbs := by
  cases a with
  | int n =>
    simp only [toFloat] at h
    split at h
    · next hinf =>
      cases h
      exact ⟨rfl, n, rfl, by simpa using (Dyadic.round_isInf_iff Nat.one_pos _).1 hinf⟩
    · cases h
  | float x => cases h
  | nan mark => cases h

/-- One of two operands is an integer that no double is nearest to. -/
def Oversized (a b : Number) : Prop :=
  ∃ n : Int, (a = .int n ∨ b = .int n) ∧ doubleLimit ≤ n.natAbs

/-- An operation on doubles fails only as the conversion of its operands does. -/
theorem onFloats_eq_error {op : Float → Float → Float}
    (h : (do return Number.float (op (← a.toFloat) (← b.toFloat)) : Except Fault Number) =
      .error f) : f = .integerTooLarge ∧ Oversized a b := by
  cases ha : a.toFloat with
  | error e =>
    rw [ha] at h
    cases h
    obtain ⟨rfl, n, rfl, hn⟩ := toFloat_eq_error ha
    exact ⟨rfl, n, .inl rfl, hn⟩
  | ok x =>
    cases hb : b.toFloat with
    | error e =>
      rw [ha, hb] at h
      cases h
      obtain ⟨rfl, n, rfl, hn⟩ := toFloat_eq_error hb
      exact ⟨rfl, n, .inr rfl, hn⟩
    | ok y =>
      rw [ha, hb] at h
      cases h

theorem lift_eq_error {onInts : Int → Int → Int} {onFloats : Float → Float → Float}
    (h : lift onInts onFloats a b = .error f) : f = .integerTooLarge ∧ Oversized a b := by
  unfold lift at h
  split at h
  · cases h
  · exact onFloats_eq_error h

theorem isZero_int {m : Int} : (Number.int m).isZero = true ↔ m = 0 := by
  simp [isZero, eqv, fraction?]

/-- The quotient of two integers is no larger than the first, so it is beyond the doubles only if
that one is. -/
theorem div_eq_error (hb : b.isZero = false) (h : a.div b = .error f) :
    (f = .integerTooLarge ∨ f = .quotientTooLarge) ∧ Oversized a b := by
  unfold div at h
  split at h
  · next n m =>
    dsimp only at h
    split at h
    · next hinf =>
      cases h
      have hm : 0 < m.natAbs := by
        have : m ≠ 0 := fun hm => by simp [isZero_int.2 hm] at hb
        omega
      have hn := (Dyadic.round_isInf_iff hm _).1 hinf
      exact ⟨.inr rfl, n, .inl rfl, (Nat.le_mul_of_pos_right _ hm).trans hn⟩
    · cases h
  · obtain ⟨hf, hover⟩ := onFloats_eq_error h
    exact ⟨.inl hf, hover⟩

/-- Cutting a double off leaves an integer within the doubles. -/
theorem truncate?_float_lt {x : Float} {n : Int} (h : (Number.float x).truncate? = some n) :
    n.natAbs < doubleLimit := by
  simp only [truncate?, fraction?, Option.map_map, Option.map_eq_some_iff] at h
  obtain ⟨d, hd, rfl⟩ := h
  refine Nat.lt_of_le_of_lt ?_ (Dyadic.significand_mul_lt hd)
  simp only [Function.comp_apply, Dyadic.fraction, Int.natAbs_tdiv, twoPow]
  refine (Nat.div_le_self ..).trans (Nat.le_of_eq ?_)
  split
  · exact Int.natAbs_neg _
  · rfl

theorem integerText_eq_error {n : Int} (h : integerText n = .error f) :
    f = .integerTooLong ∧ 10 ^ digitLimit ≤ n.natAbs := by
  unfold integerText at h
  dsimp only at h
  split at h
  · next hlog =>
    cases h
    refine ⟨rfl, ?_⟩
    have hne : n.natAbs ≠ 0 := by
      intro h0
      simp [h0, Nat.log2_zero] at hlog
    calc 10 ^ digitLimit ≤ 16 ^ digitLimit := Nat.pow_le_pow_left (by decide) _
      _ = 2 ^ (4 * digitLimit) := by rw [Nat.pow_mul]
      _ ≤ 2 ^ n.natAbs.log2 := Nat.pow_le_pow_right (by decide) hlog.le
      _ ≤ n.natAbs := Nat.log2_self_le hne
  · split at h
    · next hlong =>
      cases h
      refine ⟨rfl, Nat.le_of_not_lt fun hlt => ?_⟩
      have := (Nat.length_toDigits_le_iff (by decide) (by decide)).2 hlt
      omega
    · cases h

theorem text_eq_error {style : FloatStyle} (h : a.text style = .error f) :
    f = .integerTooLong ∧ ∃ n : Int, a = .int n ∧ 10 ^ digitLimit ≤ n.natAbs := by
  cases a with
  | int n =>
    obtain ⟨hf, hn⟩ := integerText_eq_error h
    exact ⟨hf, n, rfl, hn⟩
  | float x => cases h
  | nan mark => cases h

end Number

end NodeScript
