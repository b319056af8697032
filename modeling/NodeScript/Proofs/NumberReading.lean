import NodeScript.Header.Condition
import NodeScript.Proofs.Doubles
import NodeScript.Proofs.Limits.Evaluation

/-!
Two ways from a text to a number. An operand is read as a literal, and the literal is then taken for
a number; a value that is said to be a number is taken for one as it stands. Literals of numbers are
numbers in both ways, words are none in either, and any other text that is not quoted stays what it
is. So both ways lead to the same number or to none.
-/

namespace NodeScript

open Text Number

/-! ### Doubles that are numbers -/

namespace Dyadic

open Float.Model (UnpackedFloat Format)
open Float.Model.UnpackedFloat (Sign)

theorem exponentBits_packComponents (s : Sign) (e : BitVec 11) (m : BitVec 52) :
    exponentBits (UnpackedFloat.packComponents .binary64 s e m) = e := by
  simp [exponentBits]

theorem isNaN_unpack_of_ne {b : BitVec 64} (h : exponentBits b ≠ -1#11) :
    (UnpackedFloat.unpack .binary64 b).isNaN = false := by
  unfold UnpackedFloat.unpack
  dsimp only
  rw [if_neg h]
  split
  · split <;> rfl
  · rfl

/-- Packing a number leaves it a number. -/
theorem isNaN_unpack_pack {u : UnpackedFloat} (hu : u.isNaN = false) :
    (UnpackedFloat.unpack .binary64 (UnpackedFloat.pack .binary64 u)).isNaN = false := by
  cases u with
  | notANumber => cases hu
  | infinity s => cases s <;> decide
  | zero s => cases s <;> decide
  | finite s m e hm =>
    unfold UnpackedFloat.pack
    dsimp only
    split
    · cases s <;> decide
    · next hfits =>
      split
      · apply isNaN_unpack_of_ne
        rw [exponentBits_packComponents]
        intro hfull
        have hnat := congrArg BitVec.toNat hfull
        rw [BitVec.toNat_ofNat] at hnat
        change _ % 2 ^ 11 = 2047 at hnat
        change ¬ 2 ^ 11 ≤ _ at hfits
        omega
      · apply isNaN_unpack_of_ne
        rw [exponentBits_packComponents]
        decide

theorem isNaN_neg {x : Float} (hx : x.isNaN = false) : (-x).isNaN = false := by
  apply isNaN_unpack_pack
  change x.toModel.unpack.isNaN = false at hx
  generalize x.toModel.unpack = u at hx
  cases u with
  | notANumber => cases hx
  | _ => rfl

/-- A fraction is rounded to a number or to an infinity. -/
theorem isNaN_round (num den : Nat) : (round false num den).isNaN = false := by
  by_cases hbits : roundBits num den = 2047 * 2 ^ 52
  · rw [round, hbits]
    decide +kernel
  · have hle := roundBits_le num den
    have hof : (UInt64.ofNat (roundBits num den + 0)).toBitVec.toNat = roundBits num den :=
      Nat.mod_eq_of_lt (by omega)
    apply isNaN_unpack_pack
    apply isNaN_unpack_of_ne
    intro hfull
    have hnat := toNat_exponentBits (UInt64.ofNat (roundBits num den + 0)).toBitVec
    rw [hof] at hnat
    have hlast := (congrArg BitVec.toNat hfull).symm.trans hnat
    change 2047 = _ at hlast
    omega

end Dyadic

/-- Digits never write what is no number. -/
theorem Number.isNaN_decimalToFloat (negative : Bool) (digits : List Nat) (exponent : Int) :
    (decimalToFloat negative digits exponent).isNaN = false := by
  have hsigned (x : Float) (hx : x.isNaN = false) :
      (if negative then -x else x).isNaN = false := by
    split
    · exact Dyadic.isNaN_neg hx
    · exact hx
  apply hsigned
  split
  · exact Dyadic.isNaN_round ..
  · split <;> exact Dyadic.isNaN_round ..

theorem Number.isNaN_readDecimal? {negative : Bool} {cs : List Char} {x : Float}
    (h : readDecimal? negative cs = some x) : x.isNaN = false := by
  simp only [readDecimal?] at h
  split at h
  · split at h
    · cases h
    · obtain ⟨e, -, he⟩ := Option.bind_eq_some_iff.1 h
      obtain rfl := Option.some.inj he
      exact isNaN_decimalToFloat ..
  · split at h
    · cases h
    · obtain ⟨e, -, he⟩ := Option.bind_eq_some_iff.1 h
      obtain rfl := Option.some.inj he
      exact isNaN_decimalToFloat ..

/-! ### Characters of numbers -/

namespace Text

theorem toLower_of_isDigit {c : Char} (hc : isDigit c = true) : c.toLower = c := by
  unfold Char.toLower
  split
  · next hupper =>
    -- No digit lies among the capital letters.
    exfalso
    obtain ⟨d, hd⟩ := Option.isSome_iff_exists.1 hc
    obtain ⟨z, hz, -⟩ := Option.map_eq_some_iff.1 hd
    have hrange := List.find?_some hz
    have hapart : ∀ z ∈ digitZeros, 90 < z ∨ z + 10 ≤ 65 := by decide
    have hzero := hapart z (List.mem_of_find?_eq_some hz)
    simp only [Bool.and_eq_true, decide_eq_true_eq] at hrange
    have hfirst : 65 ≤ c.toNat := UInt32.le_iff_toNat_le.1 hupper.1
    have hlast : c.toNat ≤ 90 := UInt32.le_iff_toNat_le.1 hupper.2
    omega
  · rfl

/-- The first character that is left is no blank. -/
theorem isBlank_of_dropWhile_eq {c : Char} {cs rest : List Char}
    (h : cs.dropWhile isBlank = c :: rest) : isBlank c = false := by
  have hhead := List.head?_dropWhile_not isBlank cs
  rw [h] at hhead
  exact hhead

theorem trimChars_trimChars (cs : List Char) : trimChars (trimChars cs) = trimChars cs := by
  have hprefix : trimChars cs <+: cs.dropWhile isBlank := List.rdropWhile_prefix isBlank _
  have hfront : (trimChars cs).dropWhile isBlank = trimChars cs := by
    cases htrim : trimChars cs with
    | nil => rfl
    | cons c rest =>
      rw [htrim] at hprefix
      obtain ⟨after, hafter⟩ := hprefix
      rw [List.dropWhile_cons_of_neg]
      simp [isBlank_of_dropWhile_eq hafter.symm]
  calc trimChars (trimChars cs) = ((trimChars cs).dropWhile isBlank).rdropWhile isBlank := rfl
    _ = (trimChars cs).rdropWhile isBlank := by rw [hfront]
    _ = trimChars cs := List.rdropWhile_idempotent isBlank _

end Text

namespace Number

variable {cs : List Char} {c : Char} {n : Int}

theorem digitRow?_chars {ds : List Nat} (h : digitRow? 10 cs = some ds) (hc : c ∈ cs) :
    isDigit c = true ∨ c = '_' := by
  fun_induction digitRow? 10 cs generalizing ds with
  | case1 => cases hc
  | case2 d =>
    obtain ⟨v, hv, -⟩ := Option.map_eq_some_iff.1 h
    obtain rfl := List.mem_singleton.1 hc
    exact .inl (isDigit_of_digitIn? hv)
  | case3 d cs ih =>
    obtain ⟨v, hv, h⟩ := Option.bind_eq_some_iff.1 h
    obtain ⟨vs, hvs, -⟩ := Option.bind_eq_some_iff.1 h
    rcases List.mem_cons.1 hc with rfl | hc
    · exact .inl (isDigit_of_digitIn? hv)
    · rcases List.mem_cons.1 hc with rfl | hc
      · exact .inr rfl
      · exact ih hvs hc
  | case4 d cs hne hsep ih =>
    obtain ⟨v, hv, h⟩ := Option.bind_eq_some_iff.1 h
    obtain ⟨vs, hvs, -⟩ := Option.bind_eq_some_iff.1 h
    rcases List.mem_cons.1 hc with rfl | hc
    · exact .inl (isDigit_of_digitIn? hv)
    · exact ih hvs hc

theorem mem_splitSign (hc : c ∈ cs) : c = '-' ∨ c = '+' ∨ c ∈ (splitSign cs).2 := by
  unfold splitSign
  split
  · rcases List.mem_cons.1 hc with rfl | hc
    · exact .inl rfl
    · exact .inr (.inr hc)
  · rcases List.mem_cons.1 hc with rfl | hc
    · exact .inr (.inl rfl)
    · exact .inr (.inr hc)
  · exact .inr (.inr hc)

theorem readInt_chars (h : readInt 10 cs = .ok n) (hc : c ∈ cs) :
    isDigit c = true ∨ c = '_' ∨ c = '-' ∨ c = '+' := by
  simp only [readInt, splitBase_ten] at h
  split at h
  · cases h
  · split at h
    · cases h
    · next ds hds =>
      rcases mem_splitSign hc with hsign | hsign | hbody
      · exact .inr (.inr (.inl hsign))
      · exact .inr (.inr (.inr hsign))
      · rcases digitRow?_chars hds hbody with hdigit | hscore
        · exact .inl hdigit
        · exact .inr (.inl hscore)

/-- A character that stands in no integer. -/
theorem readInt_ne_ok (hc : c ∈ cs)
    (hapart : isDigit c = false ∧ c ≠ '_' ∧ c ≠ '-' ∧ c ≠ '+') : readInt 10 cs ≠ .ok n := by
  intro h
  rcases readInt_chars h hc with hdigit | hscore | hminus | hplus
  · exact Bool.noConfusion (hdigit.symm.trans hapart.1)
  · exact hapart.2.1 hscore
  · exact hapart.2.2.1 hminus
  · exact hapart.2.2.2 hplus

theorem spanDigits_append (cs : List Char) :
    ∃ ds, cs = ds ++ (spanDigits cs).2 ∧ ∀ c ∈ ds, isDigit c = true := by
  induction cs with
  | nil => exact ⟨[], rfl, by simp⟩
  | cons c cs ih =>
    unfold spanDigits
    split
    · next d hd =>
      obtain ⟨ds, hds, hdigits⟩ := ih
      refine ⟨c :: ds, congrArg (c :: ·) hds, ?_⟩
      intro x hx
      rcases List.mem_cons.1 hx with rfl | hx
      · exact Option.isSome_iff_exists.2 ⟨d, hd⟩
      · exact hdigits x hx
    · exact ⟨[], rfl, by simp⟩

end Number

namespace Literal

variable {cs : List Char} {c : Char}

/-- What follows the minus, if there is one. -/
def unsigned (cs : List Char) : List Char :=
  match cs with
  | '-' :: rest => rest
  | rest => rest

theorem mem_unsigned (hc : c ∈ cs) : c = '-' ∨ c ∈ unsigned cs := by
  unfold unsigned
  split
  · exact List.mem_cons.1 hc
  · exact .inr hc

theorem unsigned_subset (hc : c ∈ unsigned cs) : c ∈ cs := by
  unfold unsigned at hc
  split at hc
  · exact List.mem_cons_of_mem _ hc
  · exact hc

/-- A literal of a number is made of digits, with a point among them if it is fractional. -/
theorem exists_of_numberForm? {form : NumberForm} (h : numberForm? cs = some form) :
    ∃ whole rest, unsigned cs = whole ++ rest ∧ (∀ c ∈ whole, isDigit c = true) ∧
      ((form = .whole ∧ rest = []) ∨
        form = .fractional ∧ ∃ places, rest = '.' :: places ∧ ∀ c ∈ places, isDigit c = true) := by
  obtain ⟨whole, hwhole, hdigits⟩ := spanDigits_append (unsigned cs)
  refine ⟨whole, (spanDigits (unsigned cs)).2, hwhole, hdigits, ?_⟩
  unfold numberForm? at h
  dsimp only at h
  split at h
  · cases h
  · next hspan =>
    have hspan : spanDigits (unsigned cs) = _ := hspan
    cases h
    exact .inl ⟨rfl, by rw [hspan]⟩
  · next rest _ hspan =>
    have hspan : spanDigits (unsigned cs) = _ := hspan
    obtain ⟨places, hplaces, hdigits'⟩ := spanDigits_append rest
    split at h
    · cases h
    · next hrest =>
      cases h
      rw [hrest, List.append_nil] at hplaces
      exact .inr ⟨rfl, places, by rw [hspan, ← hplaces], hdigits'⟩
    · cases h
  · cases h

/-- A literal of a number has no other characters than these. -/
theorem numberForm?_chars {form : NumberForm} (h : numberForm? cs = some form) (hc : c ∈ cs) :
    isDigit c = true ∨ c = '-' ∨ c = '.' := by
  obtain ⟨whole, rest, hcs, hwhole, hrest⟩ := exists_of_numberForm? h
  rcases mem_unsigned hc with rfl | hc
  · exact .inr (.inl rfl)
  rw [hcs] at hc
  rcases List.mem_append.1 hc with hc | hc
  · exact .inl (hwhole c hc)
  rcases hrest with ⟨-, rfl⟩ | ⟨-, places, rfl, hplaces⟩
  · cases hc
  · rcases List.mem_cons.1 hc with rfl | hc
    · exact .inr (.inr rfl)
    · exact .inl (hplaces c hc)

theorem point_mem_of_fractional (h : numberForm? cs = some .fractional) : '.' ∈ cs := by
  obtain ⟨whole, rest, hcs, -, ⟨hform, -⟩ | ⟨-, places, rfl, -⟩⟩ := exists_of_numberForm? h
  · cases hform
  · apply unsigned_subset
    simp [hcs]

/-- The characters of a number have no other case. -/
theorem lowerChars_of_numberForm? {form : NumberForm} (h : numberForm? cs = some form)
    {part : List Char} (hpart : part ⊆ cs) : lowerChars part = part := by
  have hsame (c : Char) (hc : c ∈ part) : c.toLower = id c := by
    rcases numberForm?_chars h (hpart hc) with hdigit | rfl | rfl
    · exact toLower_of_isDigit hdigit
    · rfl
    · rfl
  rw [lowerChars, List.map_congr_left hsame, List.map_id]

theorem not_isHexText_of_numberForm? {form : NumberForm} (h : numberForm? cs = some form) :
    isHexText cs = false := by
  by_contra hhex
  have hx : 'x' ∈ cs := by
    simp only [isHexText, lowerChars_of_numberForm? h (List.Subset.refl cs), Bool.not_eq_false,
      Bool.or_eq_true, List.isPrefixOf_iff_prefix] at hhex
    rcases hhex with hhex | hhex
    · exact hhex.subset (by simp)
    · exact hhex.subset (by simp)
  rcases numberForm?_chars h hx with hdigit | hminus | hpoint
  · revert hdigit
    decide
  · cases hminus
  · cases hpoint

end Literal

namespace Number

theorem dropUnderscores?_sublist {cs ds : List Char} (h : dropUnderscores? cs = some ds) :
    ds.Sublist cs := by
  fun_induction dropUnderscores? cs generalizing ds with
  | case1 =>
    cases h
    exact List.Sublist.refl _
  | case2 => cases h
  | case3 d c cs _ hdigits ih =>
    obtain ⟨ds', hds', rfl⟩ := Option.map_eq_some_iff.1 h
    exact ((ih hds').cons _).cons_cons _
  | case4 => cases h
  | case5 c cs _ _ ih =>
    obtain ⟨ds', hds', rfl⟩ := Option.map_eq_some_iff.1 h
    exact (ih hds').cons_cons _

/-- The double that a literal of a number writes is a number. -/
theorem isNaN_readFloat? {cs : List Char} {form : Literal.NumberForm} {x : Float}
    (hform : Literal.numberForm? cs = some form) (h : readFloat? cs = some x) :
    x.isNaN = false := by
  obtain ⟨ds, hds, h⟩ := Option.bind_eq_some_iff.1 h
  have hbody : (splitSign ds).2 ⊆ cs := fun c hc =>
    (dropUnderscores?_sublist hds).subset ((splitSign_suffix ds).subset hc)
  have hletter (c : Char) (hc : isDigit c = false ∧ c ≠ '-' ∧ c ≠ '.') : c ∉ (splitSign ds).2 := by
    intro hmem
    rcases Literal.numberForm?_chars hform (hbody hmem) with hdigit | hminus | hpoint
    · exact Bool.noConfusion (hdigit.symm.trans hc.1)
    · exact hc.2.1 hminus
    · exact hc.2.2 hpoint
  have hword (word : String) (c : Char) (hc : c ∈ word.toList)
      (hapart : isDigit c = false ∧ c ≠ '-' ∧ c ≠ '.') :
      String.ofList (lowerChars (splitSign ds).2) ≠ word := by
    rintro rfl
    rw [String.toList_ofList, Literal.lowerChars_of_numberForm? hform hbody] at hc
    exact hletter c hapart hc
  have hinf := hword "inf" 'i' (by simp) (by decide)
  have hinfinity := hword "infinity" 'i' (by simp) (by decide)
  have hnan := hword "nan" 'n' (by simp) (by decide)
  simp only [hinf, hinfinity, hnan] at h
  exact isNaN_readDecimal? h

theorem dropUnderscores?_eq {cs : List Char} (h : '_' ∉ cs) : dropUnderscores? cs = some cs := by
  fun_induction dropUnderscores? cs with
  | case1 => rfl
  | case2 => simp at h
  | case3 => simp at h
  | case4 => simp at h
  | case5 c cs _ _ ih => rw [ih (List.not_mem_of_not_mem_cons h), Option.map_some]

/-- A character that stands in no integer and cannot begin a decimal. -/
def IsApart (c : Char) : Prop :=
  isDigit c = false ∧ c ≠ '_' ∧ c ≠ '-' ∧ c ≠ '+' ∧ c ≠ '.'

instance (c : Char) : Decidable (IsApart c) :=
  inferInstanceAs (Decidable (_ ∧ _))

theorem IsApart.of_toLower {c : Char} (h : IsApart c.toLower) : IsApart c := by
  refine ⟨?_, ?_, ?_, ?_, ?_⟩
  · by_contra hdigit
    rw [Bool.not_eq_false] at hdigit
    rw [toLower_of_isDigit hdigit] at h
    exact Bool.noConfusion (hdigit.symm.trans h.1)
  · rintro rfl
    exact h.2.1 rfl
  · rintro rfl
    exact h.2.2.1 rfl
  · rintro rfl
    exact h.2.2.2.1 rfl
  · rintro rfl
    exact h.2.2.2.2 rfl

theorem IsApart.readDecimal?_eq_none {c : Char} (h : IsApart c) (negative : Bool) (cs : List Char) :
    readDecimal? negative (c :: cs) = none := by
  have hvalue : digitValue? c = none := Option.isNone_iff_eq_none.1 (Option.isSome_eq_false_iff.1 h.1)
  have hspan : spanDigits (c :: cs) = ([], c :: cs) := by
    simp only [spanDigits, hvalue]
  simp only [readDecimal?, hspan]
  split
  · next heq => exact absurd (List.cons.inj heq).1 h.2.2.2.2
  · rfl

theorem IsApart.splitSign_eq {c : Char} (h : IsApart c) (cs : List Char) :
    splitSign (c :: cs) = (false, c :: cs) := by
  unfold splitSign
  split
  · next heq => exact absurd (List.cons.inj heq).1 h.2.2.1
  · next heq => exact absurd (List.cons.inj heq).1 h.2.2.2.1
  · rfl

/-- A word in small letters that is none of those for infinity and for what is no number. -/
def IsWord (word : List Char) : Prop :=
  (∃ first rest, word = first :: rest ∧ IsApart first ∧ '_' ∉ rest) ∧
    String.ofList word ∉ ["inf", "infinity", "nan"]

/-- A word is no number, whichever of its letters are capitals. -/
theorem ofText?_eq_none_of_word {s : String} (hword : IsWord (lowerChars (trimChars s.toList))) :
    ofText? s = none := by
  obtain ⟨⟨first, rest, hchars, hfirst, hscore⟩, hothers⟩ := hword
  obtain ⟨c, cs, htrim, rfl, rfl⟩ := List.map_eq_cons_iff.1 hchars
  have hc : IsApart c := .of_toLower hfirst
  have hhex : isHexText (c :: cs) = false := by
    by_contra hhex
    simp only [isHexText, lowerChars, List.map_cons, Bool.not_eq_false, Bool.or_eq_true,
      List.isPrefixOf_iff_prefix, List.cons_prefix_cons] at hhex
    rcases hhex with ⟨hzero, -⟩ | ⟨hminus, -⟩
    · rw [← hzero] at hfirst
      exact Bool.noConfusion hfirst.1
    · exact hfirst.2.2.1 hminus.symm
  have hint (n : Int) : readInt 10 (c :: cs) ≠ .ok n :=
    readInt_ne_ok List.mem_cons_self ⟨hc.1, hc.2.1, hc.2.2.1, hc.2.2.2.1⟩
  have hfloat : readFloat? (c :: cs) = none := by
    have hunscored : '_' ∉ c :: cs := by
      intro hmem
      rcases List.mem_cons.1 hmem with rfl | hmem
      · exact hc.2.1 rfl
      · exact hscore (List.mem_map_of_mem (f := Char.toLower) hmem)
    rw [htrim] at hothers
    simp only [List.mem_cons, List.not_mem_nil, or_false, not_or] at hothers
    simp [readFloat?, -String.ofList_cons, dropUnderscores?_eq hunscored, hc.splitSign_eq, hothers,
      hc.readDecimal?_eq_none]
  simp only [ofText?, htrim, hhex, hfloat]
  split
  · contradiction
  · split
    · next n hn => exact absurd hn (hint n)
    · rfl

end Number

namespace Literal

/-- Stands between two equal quote marks. -/
def IsQuoted (cs : List Char) : Prop :=
  ∃ mark inner, isQuoteMark mark = true ∧ cs = mark :: (inner ++ [mark])

theorem isQuoted_of_unquoted? {cs inner : List Char} (h : unquoted? cs = some inner) :
    IsQuoted cs := by
  unfold unquoted? at h
  split at h
  · next mark rest =>
    split at h
    · next last hlast =>
      split at h
      · next hmark =>
        rw [Bool.and_eq_true, beq_iff_eq] at hmark
        obtain ⟨hquote, rfl⟩ := hmark
        exact ⟨last, rest.dropLast, hquote, by rw [List.dropLast_append_getLast? _ hlast]⟩
      · cases h
    · cases h
  · cases h

/-- Trimming changes nothing for a number. -/
theorem ofText?_trimmed (s : String) : ofText? (String.ofList (trimChars s.toList)) = ofText? s := by
  simp only [ofText?, String.toList_ofList, trimChars_trimChars]

/-- What a literal means is a value that takes nothing of the heap, and the number that it is or
writes is the number that the text writes. -/
structure Agrees (s : String) (t : Tree) (v : Value) : Prop where
  store (h : Heap) : h.store t = (v, h)
  number : v.toNumber? = ofText? s

namespace Agrees

variable {s : String}

theorem text (s : String) :
    Agrees s (.text (String.ofList (trimChars s.toList)))
      (.text (String.ofList (trimChars s.toList))) :=
  ⟨fun _ => rfl, ofText?_trimmed s⟩

/-- A word that means a truth value or nothing. -/
theorem word {word : String} {t : Tree} {v : Value}
    (h : String.ofList (lowerChars (trimChars s.toList)) = word) (hword : IsWord word.toList)
    (hstore : ∀ h : Heap, h.store t = (v, h)) (hv : v.toNumber? = none) : Agrees s t v := by
  rw [← h, String.toList_ofList] at hword
  exact ⟨hstore, hv.trans (ofText?_eq_none_of_word hword).symm⟩

theorem whole {n : Int} (hform : numberForm? (trimChars s.toList) = some .whole)
    (hn : readInt 10 (trimChars s.toList) = .ok n) : Agrees s (.int n) (.number (.int n)) := by
  refine ⟨fun _ => rfl, ?_⟩
  simp [ofText?, not_isHexText_of_numberForm? hform, hn, Value.toNumber?]

theorem fractional {x : Float} (hform : numberForm? (trimChars s.toList) = some .fractional)
    (hx : readFloat? (trimChars s.toList) = some x) :
    Agrees s (.number (.float x)) (.number (.float x)) := by
  have hnumber : x.isNaN = false := isNaN_readFloat? hform hx
  refine ⟨fun h => ?_, ?_⟩
  · simp only [Heap.store, Heap.build, Heap.mark, isUnmarked, hnumber, Bool.false_eq_true, if_false]
  · simp only [ofText?, not_isHexText_of_numberForm? hform, hx, Value.toNumber?]
    split
    · contradiction
    · split
      · next n hn => exact absurd hn (readInt_ne_ok (point_mem_of_fractional hform) (by decide))
      · rfl

end Agrees

theorem isWord_of_mem {word : String} (h : word ∈ ["true", "false", "nil", "null"]) :
    IsWord word.toList := by
  simp only [List.mem_cons, List.not_mem_nil, or_false] at h
  rcases h with rfl | rfl | rfl | rfl
  · exact ⟨⟨'t', ['r', 'u', 'e'], by decide, by decide, by decide⟩, by decide⟩
  · exact ⟨⟨'f', ['a', 'l', 's', 'e'], by decide, by decide, by decide⟩, by decide⟩
  · exact ⟨⟨'n', ['i', 'l'], by decide, by decide, by decide⟩, by decide⟩
  · exact ⟨⟨'n', ['u', 'l', 'l'], by decide, by decide, by decide⟩, by decide⟩

/-- A text that is not quoted and has no more digits than an integer may have is a literal, and the
literal agrees with the text about numbers. -/
theorem exists_agrees (s : String) (hdigits : digitCount s.toList ≤ digitLimit)
    (hquoted : ¬ IsQuoted (trimChars s.toList)) :
    ∃ t v, Agrees s t v ∧ ∀ room, read room s = .ok t := by
  unfold read
  dsimp only
  split
  · next h => exact ⟨_, .bool true, .word h (isWord_of_mem (by simp)) (fun _ => rfl) rfl, fun _ => rfl⟩
  split
  · next h => exact ⟨_, .bool false, .word h (isWord_of_mem (by simp)) (fun _ => rfl) rfl, fun _ => rfl⟩
  split
  · next h =>
    rw [Bool.or_eq_true, decide_eq_true_eq, decide_eq_true_eq] at h
    rcases h with h | h
    · exact ⟨_, .nil, .word h (isWord_of_mem (by simp)) (fun _ => rfl) rfl, fun _ => rfl⟩
    · exact ⟨_, .nil, .word h (isWord_of_mem (by simp)) (fun _ => rfl) rfl, fun _ => rfl⟩
  split
  · next hform =>
    unfold readWhole
    split
    · next n hn => exact ⟨_, _, .whole hform hn, fun _ => rfl⟩
    · next digits hlong =>
      obtain ⟨hlimit, hcount⟩ := readInt_tooManyDigits hlong
      have hle : digitCount (trimChars s.toList) ≤ digitCount s.toList :=
        (trimChars_sublist s.toList).countP_le
      omega
    · exact ⟨_, _, .text s, fun _ => rfl⟩
  · next hform =>
    unfold readFractional
    split
    · next x hx => exact ⟨_, _, .fractional hform hx, fun _ => rfl⟩
    · exact ⟨_, _, .text s, fun _ => rfl⟩
  · split
    · next hinner => exact absurd (isQuoted_of_unquoted? hinner) hquoted
    · exact ⟨_, _, .text s, fun _ => rfl⟩

end Literal

/-! ### Operands -/

theorem Eval.literal_eq_pure {s : String} {v : Value}
    (hs : ∀ (h : Heap) (room : Nat), h.literal room (.text s) = .ok (v, h)) :
    Eval.literal (.text s) = pure v := by
  funext d
  rw [Eval.literal_apply, hs]
  rfl

/-- The number of an operand is the number that its text writes. A text with no more digits than an
integer may have, unless it stands between quote marks, is read as a literal in any heap without a
fault and without a change, and what is read is or writes the same number as the text, or like the
text none. So the instructions that take literals for their operands, those of arithmetic among them
as well as the headers of loops, come to the same numbers as those that take the texts. -/
theorem Value.number_readings_agree (s : String) (hdigits : digitCount s.toList ≤ digitLimit)
    (hquoted : ¬ Literal.IsQuoted (trimChars s.toList)) :
    ∃ v : Value, v.toNumber? = (Value.text s).toNumber? ∧
      (∀ (h : Heap) (room : Nat), h.literal room (.text s) = .ok (v, h)) ∧
      Eval.literal (.text s) = pure v ∧
      (∀ scope name absent, readOperand scope false name (.text s) absent = pure v) ∧
      ∀ scope absent, headerOperand scope .literal (.text s) absent = pure v := by
  obtain ⟨t, v, hagrees, hread⟩ := Literal.exists_agrees s hdigits hquoted
  have hliteral (h : Heap) (room : Nat) : h.literal room (.text s) = .ok (v, h) := by
    rw [Heap.literal, hread]
    exact congrArg Except.ok (hagrees.store h)
  have heval := Eval.literal_eq_pure hliteral
  refine ⟨v, hagrees.number, hliteral, heval, ?_, ?_⟩
  · intro scope name absent
    rw [← heval]
    rfl
  · intro scope absent
    rw [← heval]
    rfl

theorem Value.spacedTwelve_agrees :
    digitCount " -١٢\n".toList ≤ digitLimit ∧ ¬ Literal.IsQuoted (trimChars " -١٢\n".toList) ∧
    (Value.text " -١٢\n").toNumber? = some (.int (-12)) ∧
    ∃ v : Value, v.toNumber? = (Value.text " -١٢\n").toNumber? ∧
      (∀ (h : Heap) (room : Nat), h.literal room (.text " -١٢\n") = .ok (v, h)) ∧
      Eval.literal (.text " -١٢\n") = pure v ∧
      (∀ scope name absent, readOperand scope false name (.text " -١٢\n") absent = pure v) ∧
      ∀ scope absent, headerOperand scope .literal (.text " -١٢\n") absent = pure v := by
  have hdigits : digitCount " -١٢\n".toList ≤ digitLimit := by decide
  have hquoted : ¬ Literal.IsQuoted (trimChars " -١٢\n".toList) := by
    have htrim : trimChars " -١٢\n".toList = ['-', '١', '٢'] := by decide
    rintro ⟨mark, inner, hmark, h⟩
    rw [htrim] at h
    obtain rfl := (List.cons.inj h).1
    cases hmark
  exact ⟨hdigits, hquoted, by decide, Value.number_readings_agree _ hdigits hquoted⟩

end NodeScript
