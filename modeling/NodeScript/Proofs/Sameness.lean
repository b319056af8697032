import Mathlib
import NodeScript.Proofs.Doubles
import NodeScript.Value.Compare

/-!
What numbers and keys stand for. Two numbers are equal just when they stand for the same quantity,
whatever their kinds, and two keys are one just when they stand for the same. So both relations are
symmetric and transitive, and a map holds at most one of several keys that are one.
-/

namespace NodeScript

open Float.Model (UnpackedFloat)
open Float.Model.UnpackedFloat (Sign)

/-! ### Quantities -/

/-- What a number stands for: a point of the line, or one of its two ends. -/
inductive Quantity where
  | finite (q : ℚ)
  | infinite (negative : Bool)
deriving DecidableEq

namespace Quantity

/-- None for what is no number. Both zeros stand for zero. -/
def ofUnpacked? : UnpackedFloat → Option Quantity
  | .notANumber => none
  | .infinity s => some (.infinite (s == .negative))
  | .zero _ => some (.finite 0)
  | .finite s m e _ => some (.finite (Dyadic.value ⟨s == .negative, m, e⟩))

theorem compare_then_eq {m n : Nat} {e f : Int} :
    (compare e f).then (compare m n) = .eq ↔ e = f ∧ m = n := by
  rw [Ordering.then_eq_eq, compare_eq_iff_eq, compare_eq_iff_eq]

theorem compare_eq_iff {u w : UnpackedFloat}
    (hu : ∀ d, Dyadic.ofUnpacked? u = some d → d.Canonical)
    (hw : ∀ d, Dyadic.ofUnpacked? w = some d → d.Canonical) :
    u.compare w = some .eq ↔ ∃ q, ofUnpacked? u = some q ∧ ofUnpacked? w = some q := by
  cases u with
  | notANumber => simp [UnpackedFloat.compare, ofUnpacked?]
  | infinity s =>
    cases w with
    | infinity t => cases s <;> cases t <;> decide
    | _ => cases s <;> simp [UnpackedFloat.compare, ofUnpacked?]
  | zero s =>
    cases w with
    | infinity t => cases t <;> simp [UnpackedFloat.compare, ofUnpacked?]
    | finite t n f hn =>
      cases t <;> simp [UnpackedFloat.compare, ofUnpacked?, Dyadic.value_ne_zero _ f hn]
    | _ => simp [UnpackedFloat.compare, ofUnpacked?]
  | finite s m e hm =>
    cases w with
    | infinity t => cases s <;> cases t <;> simp [UnpackedFloat.compare, ofUnpacked?]
    | zero t =>
      cases s <;> simp [UnpackedFloat.compare, ofUnpacked?, (Dyadic.value_ne_zero _ e hm).symm]
    | notANumber => cases s <;> simp [UnpackedFloat.compare, ofUnpacked?]
    | finite t n f hn =>
      have hsame : (∃ q, ofUnpacked? (.finite s m e hm) = some q ∧
          ofUnpacked? (.finite t n f hn) = some q) ↔
          (s == .negative) = (t == .negative) ∧ m = n ∧ e = f := by
        rw [← Dyadic.value_eq_iff hm hn (hu _ rfl) (hw _ rfl)]
        simp [ofUnpacked?, eq_comm]
      rw [hsame, and_comm (a := m = n), ← compare_then_eq]
      cases s <;> cases t <;> simp [UnpackedFloat.compare, Ordering.swap_eq_eq]

/-- Doubles are equal just when they stand for the same. -/
theorem beq_iff {x y : Float} :
    (x == y) = true ↔
      ∃ q, ofUnpacked? x.toModel.unpack = some q ∧ ofUnpacked? y.toModel.unpack = some q := by
  have hcanonical (z : Float) (d : Dyadic) (hd : Dyadic.ofUnpacked? z.toModel.unpack = some d) :
      d.Canonical := Dyadic.canonical_of_ofFloat? ((Dyadic.ofFloat?_eq z).trans hd)
  rw [← compare_eq_iff (hcanonical x) (hcanonical y)]
  change (x.toModel.unpack.compare y.toModel.unpack == some .eq) = true ↔ _
  rw [beq_iff_eq]

theorem ofUnpacked?_of_finite {u : UnpackedFloat} {d : Dyadic} (h : Dyadic.ofUnpacked? u = some d) :
    ofUnpacked? u = some (.finite d.value) := by
  cases u with
  | zero s =>
    obtain rfl := Option.some.inj h
    simp [ofUnpacked?, Dyadic.value, Dyadic.magnitude]
  | finite s m e hm =>
    obtain rfl := Option.some.inj h
    rfl
  | infinity s => cases h
  | notANumber => cases h

theorem ofUnpacked?_ne_finite {u : UnpackedFloat} (h : Dyadic.ofUnpacked? u = none) (q : ℚ) :
    ofUnpacked? u ≠ some (.finite q) := by
  cases u with
  | zero s => cases h
  | finite s m e hm => cases h
  | infinity s => simp [ofUnpacked?]
  | notANumber => simp [ofUnpacked?]

end Quantity

/-! ### Numbers -/

namespace Number

variable {a b : Number}

/-- What a number stands for. -/
def quantity? : Number → Option Quantity
  | .int n => some (.finite n)
  | .float x => Quantity.ofUnpacked? x.toModel.unpack
  | .nan _ => none

theorem quantity?_of_fraction? {n : Int} {d : Nat} (h : a.fraction? = some (n, d)) :
    d ≠ 0 ∧ a.quantity? = some (.finite (n / d)) := by
  cases a with
  | int m =>
    obtain ⟨rfl, rfl⟩ : m = n ∧ 1 = d := by simpa [fraction?] using h
    exact ⟨Nat.one_ne_zero, by simp [quantity?]⟩
  | float x =>
    simp only [fraction?, Option.map_eq_some_iff] at h
    obtain ⟨d', hd', hfraction⟩ := h
    have hvalue := d'.fraction_value
    have hden : d'.fraction.2 ≠ 0 := (Nat.two_pow_pos _).ne'
    rw [hfraction] at hvalue hden
    refine ⟨hden, ?_⟩
    rw [Dyadic.ofFloat?_eq] at hd'
    exact (Quantity.ofUnpacked?_of_finite hd').trans (by rw [← hvalue])
  | nan mark => cases h

theorem quantity?_ne_finite (h : a.fraction? = none) (q : ℚ) : a.quantity? ≠ some (.finite q) := by
  cases a with
  | int m => cases h
  | float x =>
    simp only [fraction?, Option.map_eq_none_iff, Dyadic.ofFloat?_eq] at h
    exact Quantity.ofUnpacked?_ne_finite h q
  | nan mark => simp [quantity?]

/-- Fractions are equal just when their cross products are. -/
theorem cross_iff {n m : Int} {d e : Nat} (hd : d ≠ 0) (he : e ≠ 0) :
    (n * e == m * d) = true ↔ (n / d : ℚ) = m / e := by
  rw [beq_iff_eq, div_eq_div_iff (by exact_mod_cast hd) (by exact_mod_cast he)]
  exact_mod_cast Iff.rfl

theorem fractions_eq_iff :
    (match a.fraction?, b.fraction? with
      | some (n, d), some (m, e) => n * e == m * d
      | _, _ => false) = true ↔
      ∃ q, a.quantity? = some (.finite q) ∧ b.quantity? = some (.finite q) := by
  cases ha : a.fraction? with
  | none => simp [quantity?_ne_finite ha]
  | some p =>
    cases hb : b.fraction? with
    | none => simp [quantity?_ne_finite hb]
    | some r =>
      obtain ⟨hd, ha⟩ := quantity?_of_fraction? ha
      obtain ⟨he, hb⟩ := quantity?_of_fraction? hb
      simp [cross_iff hd he, ha, hb, eq_comm]

/-- Numbers are equal just when they stand for the same, whatever their kinds. -/
theorem eqv_iff : a.eqv b = true ↔ ∃ q, a.quantity? = some q ∧ b.quantity? = some q := by
  have hfinite : (∃ q, a.quantity? = some (.finite q) ∧ b.quantity? = some (.finite q)) →
      ∃ q, a.quantity? = some q ∧ b.quantity? = some q := fun ⟨q, h⟩ => ⟨_, h⟩
  -- Unless both are doubles, one of them is no infinity.
  cases a with
  | float x =>
    cases b with
    | float y => exact Quantity.beq_iff
    | int m =>
      refine fractions_eq_iff.trans ⟨hfinite, ?_⟩
      rintro ⟨q, ha, ⟨⟩⟩
      exact ⟨_, ha, rfl⟩
    | nan k =>
      refine fractions_eq_iff.trans ⟨hfinite, ?_⟩
      rintro ⟨q, -, ⟨⟩⟩
  | int n =>
    refine fractions_eq_iff.trans ⟨hfinite, ?_⟩
    rintro ⟨q, ⟨⟩, hb⟩
    exact ⟨_, rfl, hb⟩
  | nan k =>
    refine fractions_eq_iff.trans ⟨hfinite, ?_⟩
    rintro ⟨q, ⟨⟩, -⟩

/-- What containers tell numbers apart by: the quantity, and the mark of what is no number. -/
def identity? : Number → Option (Quantity ⊕ Nat)
  | .nan mark => some (.inr mark)
  | a => a.quantity?.map .inl

/-- Both are there and the same, also after an injective map. -/
theorem exists_map_iff {α β : Type} {f : α → β} (hf : f.Injective) {x y : Option α} :
    (∃ i, x.map f = some i ∧ y.map f = some i) ↔ ∃ i, x = some i ∧ y = some i := by
  cases x <;> cases y <;> simp [hf.eq_iff]

theorem alike_iff : a.alike b = true ↔ ∃ i, a.identity? = some i ∧ b.identity? = some i := by
  have hquantities : a.eqv b = true ↔
      ∃ i, a.quantity?.map Sum.inl = some i ∧ b.quantity?.map (Sum.inl (β := Nat)) = some i := by
    rw [eqv_iff, exists_map_iff Sum.inl_injective]
  cases a with
  | nan m =>
    cases b with
    | nan k => simpa [alike, identity?] using eq_comm
    | _ => exact hquantities.trans (by simp [identity?, quantity?])
  | _ =>
    cases b with
    | nan k => exact hquantities.trans (by simp [identity?, quantity?])
    | _ => exact hquantities

/-- A number is whole just when it stands for an integer. -/
theorem whole?_eq_some_iff {i : Int} : a.whole? = some i ↔ a.quantity? = some (.finite i) := by
  unfold whole?
  cases ha : a.fraction? with
  | none => simp [quantity?_ne_finite ha]
  | some p =>
    obtain ⟨n, d⟩ := p
    obtain ⟨hd, ha⟩ := quantity?_of_fraction? ha
    have hpos : (d : ℚ) ≠ 0 := by exact_mod_cast hd
    have hint : (n / d : ℚ) = i ↔ n = i * d := by
      rw [div_eq_iff hpos]
      exact_mod_cast Iff.rfl
    rw [ha, Option.some.injEq, Quantity.finite.injEq, hint]
    dsimp only
    constructor
    · intro h
      split at h
      · next hmod =>
        obtain rfl := Option.some.inj h
        exact (Int.ediv_mul_cancel (Int.dvd_of_emod_eq_zero hmod)).symm
      · cases h
    · rintro rfl
      rw [if_pos (Int.mul_emod_left i d), Int.mul_ediv_cancel i (by exact_mod_cast hd)]

theorem truncate?_of_whole? {i : Int} (h : a.whole? = some i) : a.truncate? = some i := by
  unfold whole? at h
  unfold truncate?
  cases ha : a.fraction? with
  | none =>
    rw [ha] at h
    cases h
  | some p =>
    obtain ⟨n, d⟩ := p
    rw [ha] at h
    dsimp only at h
    split at h
    · next hmod =>
      obtain rfl := Option.some.inj h
      exact congrArg some (Int.tdiv_eq_ediv_of_dvd (Int.dvd_of_emod_eq_zero hmod))
    · cases h

end Number

/-! ### Keys -/

/-- What moments are told apart by: the day, the day and the clock, or the common time. -/
inductive MomentIdentity where
  | day (d : Day)
  | clock (d : Day) (c : Clock)
  | common (minutes : Int) (second microsecond : Nat)

def Moment.identity : Moment → MomentIdentity
  | .day d => .day d
  | .time d c =>
    match c.offset with
    | none => .clock d c
    | some offset => .common (c.commonMinutes d offset) c.second c.microsecond

theorem Moment.same_iff {m n : Moment} : m.same n = true ↔ m.identity = n.identity := by
  cases m with
  | day d =>
    cases n with
    | day e => simp [same, identity]
    | time e k => cases hk : k.offset <;> simp [same, identity, hk]
  | time d c =>
    cases n with
    | day e => cases hc : c.offset <;> simp [same, identity, hc]
    | time e k =>
      cases hc : c.offset <;> cases hk : k.offset <;> simp [same, identity, hc, hk, and_assoc]

namespace Key

/-- What maps tell keys apart by; none for a key that is not even the same as itself. -/
inductive Identity where
  | text (s : String)
  | number (i : Quantity ⊕ Nat)
  | moment (i : MomentIdentity)
  | nil

def identity? : Key → Option Identity
  | .text s => some (.text s)
  | .moment m => some (.moment m.identity)
  | .nil => some .nil
  | k => (k.number?.bind Number.identity?).map .number

theorem same_iff {j k : Key} :
    (j == k) = true ↔ ∃ i, j.identity? = some i ∧ k.identity? = some i := by
  have hnumbers {n m : Number} : n.alike m = true ↔
      ∃ i, n.identity?.map Identity.number = some i ∧ m.identity?.map Identity.number = some i := by
    rw [Number.alike_iff, Number.exists_map_iff fun _ _ h => Identity.number.inj h]
  change j.same k = true ↔ _
  cases j with
  | text s =>
    cases k with
    | text t => simpa [same, identity?] using eq_comm
    | _ => simp [same, identity?, number?]
  | moment m =>
    cases k with
    | moment n => simpa [same, identity?, Moment.same_iff] using eq_comm
    | _ => simp [same, identity?, number?]
  | nil => cases k <;> simp [same, identity?, number?]
  | number n =>
    cases k with
    | number m => exact hnumbers
    | bool c => exact hnumbers
    | _ => simp [same, identity?, number?]
  | bool b =>
    cases k with
    | number m => exact hnumbers (n := .int (if b then 1 else 0))
    | bool c => exact hnumbers (n := .int (if b then 1 else 0)) (m := .int (if c then 1 else 0))
    | _ => simp [same, identity?, number?]

instance : PartialEquivBEq Key where
  symm h := by
    obtain ⟨i, hj, hk⟩ := same_iff.1 h
    exact same_iff.2 ⟨i, hk, hj⟩
  trans h h' := by
    obtain ⟨i, hj, hk⟩ := same_iff.1 h
    obtain ⟨i', hk', hl⟩ := same_iff.1 h'
    obtain rfl := Option.some.inj (hk.symm.trans hk')
    exact same_iff.2 ⟨i, hj, hl⟩

end Key

/-! ### Dictionaries -/

namespace Dict

variable {κ α : Type} [BEq κ]

theorem contains_eq (d : Dict κ α) (k : κ) : d.contains k = (d.get? k).isSome := by
  rw [contains, get?, Option.isSome_map, List.isSome_find?]

theorem map_fst_put (k : κ) (v : α) (entries : List (κ × α)) :
    (put k v entries).map Prod.fst =
      if entries.any (·.1 == k) then entries.map Prod.fst else entries.map Prod.fst ++ [k] := by
  induction entries with
  | nil => rfl
  | cons e es ih =>
    obtain ⟨j, w⟩ := e
    by_cases hj : (j == k) = true
    · simp [put, hj]
    · by_cases hes : es.any (·.1 == k) = true
      · simp only [put, hj, Bool.false_eq_true, if_false, List.map_cons, ih, hes, if_true,
          List.any_cons, Bool.or_true]
      · simp only [put, hj, Bool.false_eq_true, if_false, List.map_cons, ih, hes, List.any_cons,
          Bool.or_false, List.cons_append]

/-- A new key goes to the end; otherwise the keys and their order stay. -/
theorem keys_insert (d : Dict κ α) (k : κ) (v : α) :
    (d.insert k v).keys = if d.contains k then d.keys else d.keys ++ [k] :=
  map_fst_put k v d.entries

variable [PartialEquivBEq κ] {j k : κ}

/-- What is inserted under a key is found under every key that is the same. -/
theorem get?_insert_of_same (h : (k == j) = true) (v : α) (d : Dict κ α) :
    (d.insert k v).get? j = some v := by
  obtain ⟨entries⟩ := d
  simp only [get?, insert]
  induction entries with
  | nil => simp [put, h]
  | cons e es ih =>
    obtain ⟨l, w⟩ := e
    by_cases hl : (l == k) = true
    · simp [put, hl, BEq.trans hl h]
    · have hlj : (l == j) = false := Bool.eq_false_iff.2 fun hlj => hl (BEq.trans hlj (BEq.symm h))
      simpa [put, hl, hlj] using ih

/-- Inserting under a key keeps what stands under all keys that are not the same. -/
theorem get?_insert_of_not_same (h : (k == j) = false) (v : α) (d : Dict κ α) :
    (d.insert k v).get? j = d.get? j := by
  obtain ⟨entries⟩ := d
  simp only [get?, insert]
  induction entries with
  | nil => simp [put, h]
  | cons e es ih =>
    obtain ⟨l, w⟩ := e
    by_cases hl : (l == k) = true
    · have hlj : (l == j) = false := by
        rw [← h]
        exact BEq.congr_left hl
      simp [put, hl, hlj]
    · by_cases hlj : (l == j) = true
      · simp [put, hl, hlj]
      · simpa [put, hl, hlj] using ih

end Dict

end NodeScript
