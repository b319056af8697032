import Mathlib
import NodeScript.Proofs.Limits.Numbers
import NodeScript.Proofs.Limits.Texts
import NodeScript.Text.Quoted

/-!
Texts that read back. A text is told by its letters. The digits of an integer give the integer again,
alone and in front of what may follow a value in the serial form, and a quoted text without halves of
pairs gives its characters again, also those that are written as two halves.
-/

namespace NodeScript

open Text Number

/-! ### Letters -/

namespace Text

theorem half?_ofNat (index : Fin 0x800) :
    half? (Char.ofNat (0xE000 + index)) = some (.half index) := by
  have hvalid : (0xE000 + index.val).isValidChar := .inr ⟨by omega, by omega⟩
  have hcode : (Char.ofNat (0xE000 + index.val)).toNat = 0xE000 + index.val := by
    rw [Char.toNat_ofNat, if_pos hvalid]
  unfold half?
  rw [dif_pos (by omega)]
  simp [hcode]

theorem pair?_halfMark (index : Fin 0x800) :
    pair? halfMark (Char.ofNat (0xE000 + index)) = some (.half index) := by
  have hne : Char.ofNat (0xE000 + index.val) ≠ halfMark := by
    intro h
    have hhalf := half?_ofNat index
    rw [h] at hhalf
    cases hhalf
  simp [pair?, hne, half?_ofNat]

namespace Letter

theorem chars_char {c : Char} (hc : c ≠ halfMark) : (char c).chars = [c] :=
  if_neg hc

theorem ne_halfMark {c : Char} (hc : c.toNat ≠ 0xFFFF) : c ≠ halfMark := by
  rintro rfl
  exact hc rfl

theorem ofCode_toNat (c : Char) : ofCode c.toNat = .char c := by
  have hvalid : c.toNat < 0xD800 ∨ 0xDFFF < c.toNat ∧ c.toNat < 0x110000 := c.valid
  rw [ofCode, dif_neg (by omega), Char.ofNat_toNat]

end Letter

/-- A letter is told from the characters that stand for it, whatever follows them. -/
theorem letters_chars_append (l : Letter) (cs : List Char) :
    letters (l.chars ++ cs) = l :: letters cs := by
  cases l with
  | half index => simp [Letter.chars, letters, pair?_halfMark]
  | char c =>
    by_cases hc : c = halfMark
    · subst hc
      simp [Letter.chars, letters, pair?]
    · rw [Letter.chars_char hc]
      cases cs with
      | nil => rfl
      | cons d cs => simp [letters, pair?, hc]

/-- Texts are told apart by their letters. -/
theorem lettersOf_ofLetters (ls : List Letter) : lettersOf (ofLetters ls) = ls := by
  rw [lettersOf, ofLetters, String.toList_ofList]
  induction ls with
  | nil => rfl
  | cons l ls ih => rw [List.flatMap_cons, letters_chars_append, ih]

theorem lettersOf_ofChars (cs : List Char) : lettersOf (ofChars cs) = cs.map .char :=
  lettersOf_ofLetters _

/-- A text without halves: it is made of characters. -/
def IsWhole (s : String) : Prop :=
  ∃ cs, s = ofChars cs

/-- Without the mark, characters stand for themselves. -/
theorem flatMap_chars {cs : List Char} (hcs : halfMark ∉ cs) :
    (cs.map Letter.char).flatMap Letter.chars = cs := by
  induction cs with
  | nil => rfl
  | cons c cs ih =>
    obtain ⟨hc, hcs⟩ := not_or.1 (mt List.mem_cons.2 hcs)
    rw [List.map_cons, List.flatMap_cons, Letter.chars_char (Ne.symm hc), ih hcs]
    rfl

theorem isWhole_of_not_mem {s : String} (hs : halfMark ∉ s.toList) : IsWhole s :=
  ⟨s.toList, by rw [ofChars, ofLetters, flatMap_chars hs, String.ofList_toList]⟩

end Text

/-! ### Integers -/

section Digits

variable {c : Char} {cs : List Char}

/-- What a decimal digit is to the readers of numbers. -/
structure Text.IsDecimal (c : Char) : Prop where
  not_blank : isBlank c = false
  lower_eq : c.toLower = c
  ascii : Serial.isAsciiDigit c = true
  value_eq : digitValue? c = some (c.toNat - 48)
  valueIn_eq : digitIn? 10 c = some (c.toNat - 48)

theorem Text.isDecimal_of_isDigit (hc : c.isDigit = true) : IsDecimal c := by
  simp only [Char.isDigit, Bool.and_eq_true, decide_eq_true_eq] at hc
  have hlow : 48 ≤ c.toNat := UInt32.le_iff_toNat_le.1 hc.1
  have hhigh : c.toNat ≤ 57 := UInt32.le_iff_toNat_le.1 hc.2
  rw [← Char.ofNat_toNat c]
  generalize c.toNat = n at hlow hhigh
  interval_cases n <;> constructor <;> decide

theorem Text.ne_of_isDigit {d : Char} (hc : c.isDigit = true) (hd : d.isDigit = false) : c ≠ d := by
  rintro rfl
  simp [hc] at hd

theorem Number.digitRow?_of_isDigit (hne : cs ≠ []) (hcs : ∀ c ∈ cs, c.isDigit = true) :
    digitRow? 10 cs = some (cs.map (·.toNat - 48)) := by
  fun_induction digitRow? 10 cs with
  | case1 => exact absurd rfl hne
  | case2 c => simp [(isDecimal_of_isDigit (hcs c (by simp))).valueIn_eq]
  | case3 c cs ih => exact absurd (hcs '_' (by simp)) (by decide)
  | case4 c cs hcs' hsep ih =>
    have hc := (isDecimal_of_isDigit (hcs c (by simp))).valueIn_eq
    have hrow := ih (by simpa using hcs') fun d hd => hcs d (List.mem_cons_of_mem _ hd)
    simp [hc, hrow]

theorem Text.natOfDigits_eq (cs : List Char) (value : Nat) :
    natOfDigits 10 value (cs.map (·.toNat - 48)) = Nat.ofDigitChars 10 cs value := by
  induction cs generalizing value with
  | nil => rfl
  | cons c cs ih =>
    simp only [List.map_cons, natOfDigits, ih, Nat.ofDigitChars, List.foldl_cons, Nat.mul_comm]
    rfl

theorem Number.spanDigits_of_isDigit (hcs : ∀ c ∈ cs, c.isDigit = true) :
    spanDigits cs = (cs.map (·.toNat - 48), []) := by
  induction cs with
  | nil => rfl
  | cons c cs ih =>
    have hc := (isDecimal_of_isDigit (hcs c (by simp))).value_eq
    have hrest := ih fun d hd => hcs d (List.mem_cons_of_mem _ hd)
    simp [spanDigits, hc, hrest]

end Digits

namespace Number

/-- The sign and the digits of an integer. -/
def spelled (n : Int) : List Char :=
  if n < 0 then '-' :: Nat.toDigits 10 n.natAbs else Nat.toDigits 10 n.natAbs

variable {n : Int} {m : Nat}

theorem isDigit_of_mem_toDigits {c : Char} (hc : c ∈ Nat.toDigits 10 m) : c.isDigit = true :=
  Nat.isDigit_of_mem_toDigits (by decide) (by decide) hc

theorem exists_toDigits_eq_cons (m : Nat) :
    ∃ d ds, Nat.toDigits 10 m = d :: ds ∧ d.isDigit = true := by
  obtain ⟨d, ds, hds⟩ := List.exists_cons_of_ne_nil (Nat.toDigits_ne_nil (n := m) (b := 10))
  exact ⟨d, ds, hds, isDigit_of_mem_toDigits (m := m) (by simp [hds])⟩

theorem length_toDigits_le (hm : m < 10 ^ digitLimit) : (Nat.toDigits 10 m).length ≤ digitLimit :=
  (Nat.length_toDigits_le_iff (by decide) (by decide)).2 hm

theorem integerText_eq (hn : n.natAbs < 10 ^ digitLimit) :
    integerText n = .ok (String.ofList (spelled n)) := by
  cases h : integerText n with
  | error f => exact absurd (integerText_eq_error h).2 (Nat.not_le_of_lt hn)
  | ok s =>
    unfold integerText at h
    split at h
    · cases h
    · dsimp only at h
      split at h
      · cases h
      · exact h.symm

theorem digitRow?_toDigits (m : Nat) :
    digitRow? 10 (Nat.toDigits 10 m) = some ((Nat.toDigits 10 m).map (·.toNat - 48)) :=
  digitRow?_of_isDigit Nat.toDigits_ne_nil fun _ => isDigit_of_mem_toDigits

/-- A digit is no sign. -/
theorem splitSign_toDigits (m : Nat) :
    splitSign (Nat.toDigits 10 m) = (false, Nat.toDigits 10 m) := by
  obtain ⟨d, ds, hds, hd⟩ := exists_toDigits_eq_cons m
  have hminus : d ≠ '-' := ne_of_isDigit hd (by decide)
  have hplus : d ≠ '+' := ne_of_isDigit hd (by decide)
  simp [hds, splitSign, hminus, hplus]

theorem readInt_spelled (hn : n.natAbs < 10 ^ digitLimit) : readInt 10 (spelled n) = .ok n := by
  have hlength := length_toDigits_le hn
  have hvalue : natOfDigits 10 0 ((Nat.toDigits 10 n.natAbs).map (·.toNat - 48)) = n.natAbs := by
    rw [natOfDigits_eq, Nat.ofDigitChars_toDigits (by decide) (by decide)]
  have hsign : splitSign (spelled n) = (decide (n < 0), Nat.toDigits 10 n.natAbs) := by
    unfold spelled
    split
    · next hneg => simp [splitSign, hneg]
    · next hneg => simp [splitSign_toDigits, hneg]
  have habs : (if n < 0 then -(n.natAbs : Int) else n.natAbs) = n := by
    split <;> omega
  simp only [readInt, hsign, splitBase_ten, digitRow?_toDigits, hvalue, isPaddedLiteral]
  simp only [List.length_map, Nat.not_lt.2 hlength, decide_false, Bool.false_and, decide_eq_true_eq,
    habs]
  rfl

/-- Only zero begins with a zero. -/
theorem head?_toDigits_ne_zero (hm : 0 < m) : (Nat.toDigits 10 m).head? ≠ some '0' := by
  induction m using Nat.strongRecOn with
  | ind m ih =>
    by_cases hlt : m < 10
    · rw [Nat.toDigits_of_lt_base hlt]
      interval_cases m <;> decide
    · rw [Nat.toDigits_of_base_le (by decide) (Nat.not_lt.1 hlt),
        List.head?_append_of_ne_nil _ Nat.toDigits_ne_nil]
      exact ih (m / 10) (by omega) (by omega)

/-- What an integer is written with. -/
theorem mem_spelled {c : Char} (hc : c ∈ spelled n) : c.isDigit = true ∨ c = '-' := by
  unfold spelled at hc
  split at hc
  · obtain rfl | hc := List.mem_cons.1 hc
    · exact .inr rfl
    · exact .inl (isDigit_of_mem_toDigits hc)
  · exact .inl (isDigit_of_mem_toDigits hc)

theorem exists_spelled_eq_cons (n : Int) :
    ∃ c cs, spelled n = c :: cs ∧ (c.isDigit = true ∨ c = '-') := by
  unfold spelled
  split
  · exact ⟨'-', _, rfl, .inr rfl⟩
  · obtain ⟨d, ds, hds, hd⟩ := exists_toDigits_eq_cons n.natAbs
    exact ⟨d, ds, hds, .inl hd⟩

theorem trimChars_spelled (n : Int) : trimChars (spelled n) = spelled n := by
  have hblank : ∀ c ∈ spelled n, isBlank c = false := by
    intro c hc
    obtain hc | rfl := mem_spelled hc
    · exact (isDecimal_of_isDigit hc).not_blank
    · decide
  have hkept : ∀ cs : List Char, (∀ c ∈ cs, isBlank c = false) → cs.dropWhile isBlank = cs :=
    fun cs hcs => List.dropWhile_eq_self_iff.2 fun hl => by simp [hcs _ (List.getElem_mem hl)]
  rw [trimChars, hkept _ hblank, hkept _ (by simpa using hblank), List.reverse_reverse]

theorem lowerChars_spelled (n : Int) : lowerChars (spelled n) = spelled n := by
  refine (List.map_congr_left fun c hc => ?_).trans (List.map_id _)
  obtain hc | rfl := mem_spelled hc
  · exact (isDecimal_of_isDigit hc).lower_eq
  · decide

theorem numberForm?_spelled (n : Int) : Literal.numberForm? (spelled n) = some .whole := by
  have hspan := spanDigits_of_isDigit fun c => isDigit_of_mem_toDigits (c := c) (m := n.natAbs)
  obtain ⟨d, ds, hds, hdigit⟩ := exists_toDigits_eq_cons n.natAbs
  have hd : d ≠ '-' := ne_of_isDigit hdigit (by decide)
  rw [hds] at hspan
  unfold spelled
  rw [hds]
  split <;> simp [Literal.numberForm?, hspan, hd]

theorem not_mem_spelled {c : Char} (hdigit : c.isDigit = false) (hsign : c ≠ '-') :
    c ∉ spelled n := by
  intro hc
  obtain hc | rfl := mem_spelled hc
  · simp [hdigit] at hc
  · exact hsign rfl

/-- The text of an integer is no word, since it has no letters. -/
theorem spelled_ne {word : String} {c : Char} (hc : c ∈ word.toList) (hdigit : c.isDigit = false)
    (hsign : c ≠ '-') : String.ofList (spelled n) ≠ word := by
  rintro rfl
  rw [String.toList_ofList] at hc
  exact not_mem_spelled hdigit hsign hc

theorem not_isHexText_spelled (n : Int) : isHexText (spelled n) = false := by
  have hx : 'x' ∉ spelled n := not_mem_spelled (by decide) (by decide)
  rw [Bool.eq_false_iff, isHexText, lowerChars_spelled, ne_eq, Bool.or_eq_true,
    List.isPrefixOf_iff_prefix, List.isPrefixOf_iff_prefix]
  rintro (h | h)
  · exact hx (h.subset (by simp))
  · exact hx (h.subset (by simp))

theorem ofText?_spelled (hn : n.natAbs < 10 ^ digitLimit) :
    ofText? (String.ofList (spelled n)) = some (.int n) := by
  simp [ofText?, trimChars_spelled, not_isHexText_spelled, readInt_spelled hn]

end Number

theorem Literal.read_spelled (room : Nat) {n : Int} (hn : n.natAbs < 10 ^ digitLimit) :
    Literal.read room (String.ofList (spelled n)) = .ok (.int n) := by
  have htrue : String.ofList (spelled n) ≠ "true" :=
    spelled_ne (c := 't') (by simp) (by decide) (by decide)
  have hfalse : String.ofList (spelled n) ≠ "false" :=
    spelled_ne (c := 'f') (by simp) (by decide) (by decide)
  have hnil : String.ofList (spelled n) ≠ "nil" :=
    spelled_ne (c := 'n') (by simp) (by decide) (by decide)
  have hnull : String.ofList (spelled n) ≠ "null" :=
    spelled_ne (c := 'n') (by simp) (by decide) (by decide)
  simp [read, trimChars_spelled, lowerChars_spelled, htrue, hfalse, hnil, hnull,
    numberForm?_spelled, readWhole, readInt_spelled hn]

/-! ### Values in the serial form -/

namespace Serial

variable {cs rest : List Char} {n : Int}

/-- What may stand right after a value: nothing, a comma or a closing bracket. -/
def Ends (cs : List Char) : Prop :=
  ∀ c ∈ cs.head?, c = ',' ∨ c = ']' ∨ c = '\x7d'

theorem span_append_of_ends (hcs : ∀ c ∈ cs, c.isDigit = true) (hrest : Ends rest) :
    (cs ++ rest).span isAsciiDigit = (cs, rest) := by
  have hstop : ∀ c ∈ rest.head?, isAsciiDigit c = false := by
    intro c hc
    obtain rfl | rfl | rfl := hrest c hc <;> decide
  have htake : rest.takeWhile isAsciiDigit = [] := by
    cases rest with
    | nil => rfl
    | cons c rest => simp [hstop c rfl]
  have hdrop : rest.dropWhile isAsciiDigit = rest := by
    cases rest with
    | nil => rfl
    | cons c rest => simp [hstop c rfl]
  have hdigits : ∀ c ∈ cs, isAsciiDigit c = true :=
    fun c hc => (isDecimal_of_isDigit (hcs c hc)).ascii
  rw [List.span_eq_takeWhile_dropWhile, List.takeWhile_append_of_pos hdigits,
    List.dropWhile_append_of_pos hdigits, htake, hdrop, List.append_nil]

theorem spanWhole_toDigits (m : Nat) (hrest : Ends rest) :
    spanWhole (Nat.toDigits 10 m ++ rest) = (Nat.toDigits 10 m, rest) := by
  obtain rfl | hm := Nat.eq_zero_or_pos m
  · rfl
  · have hspan := span_append_of_ends (fun c => isDigit_of_mem_toDigits (c := c) (m := m)) hrest
    have hhead := head?_toDigits_ne_zero hm
    obtain ⟨d, ds, hds, -⟩ := exists_toDigits_eq_cons m
    rw [hds] at hspan hhead ⊢
    simpa [spanWhole, show d ≠ '0' by simpa using hhead] using hspan

theorem spanPlaces_of_ends (hrest : Ends rest) : spanPlaces rest = ([], rest) := by
  unfold spanPlaces
  split
  · exact absurd (hrest '.' rfl) (by decide)
  · rfl

theorem spanExponent_of_ends (hrest : Ends rest) : spanExponent rest = ([], rest) := by
  cases rest with
  | nil => rfl
  | cons c rest => obtain rfl | rfl | rfl := hrest c rfl <;> rfl

theorem readNumber_spelled (hn : n.natAbs < 10 ^ digitLimit) (hrest : Ends rest) :
    readNumber (spelled n ++ rest) = .ok (.int n, rest) := by
  have hwhole := spanWhole_toDigits n.natAbs hrest
  have hplaces := spanPlaces_of_ends hrest
  have hexponent := spanExponent_of_ends hrest
  have hread := readInt_spelled hn
  obtain ⟨d, ds, hds, hdigit⟩ := exists_toDigits_eq_cons n.natAbs
  have hd : d ≠ '-' := ne_of_isDigit hdigit (by decide)
  unfold spelled at hread ⊢
  rw [hds, List.cons_append] at hwhole
  rw [hds] at hread ⊢
  split at hread
  · next hneg => simp [hneg, readNumber, hwhole, hplaces, hexponent, hread]
  · next hneg => simp [hneg, readNumber, hd, hwhole, hplaces, hexponent, hread]

theorem readWord?_spelled (n : Int) (rest : List Char) : readWord? (spelled n ++ rest) = none := by
  obtain ⟨d, ds, hds, hdigit⟩ := exists_toDigits_eq_cons n.natAbs
  have hne (c : Char) (hc : c.isDigit = false) : c ≠ d := (ne_of_isDigit hdigit hc).symm
  have hwords : readWord? (d :: (ds ++ rest)) = none ∧
      readWord? ('-' :: d :: (ds ++ rest)) = none := by
    simp [readWord?, words, hne 'n' rfl, hne 't' rfl, hne 'f' rfl, hne 'N' rfl, hne 'I' rfl,
      hne '-' rfl]
  unfold spelled
  rw [hds]
  split
  · exact hwords.2
  · exact hwords.1

/-! ### Quoted texts -/

theorem hexValue?_hexDigit {d : Nat} (hd : d < 16) : hexValue? (hexDigit d) = some d := by
  interval_cases d <;> decide

theorem hexDigits_four (n : Nat) :
    hexDigits 4 n = [hexDigit (n / 16 / 16 / 16 % 16), hexDigit (n / 16 / 16 % 16),
      hexDigit (n / 16 % 16), hexDigit (n % 16)] :=
  rfl

/-- Four digits give back a code that has no more. -/
theorem textPieces_hexDigits {n : Nat} (hn : n < 0x10000) (cs : List Char) :
    textPieces ('\\' :: 'u' :: (hexDigits 4 n ++ cs)) =
      (textPieces cs).map fun (ps, r) => (.code n :: ps, r) := by
  have hdigit (k : Nat) : hexValue? (hexDigit (k % 16)) = some (k % 16) :=
    hexValue?_hexDigit (Nat.mod_lt _ (by decide))
  have hvalue : hexValue4? (hexDigit (n / 16 / 16 / 16 % 16)) (hexDigit (n / 16 / 16 % 16))
      (hexDigit (n / 16 % 16)) (hexDigit (n % 16)) = some n := by
    simp only [hexValue4?, hdigit, Option.pure_def, Option.bind_eq_bind, Option.bind_some,
      Option.some.injEq]
    omega
  simp [hexDigits_four, textPieces, hvalue]

/-- A character that needs no escape stands for itself. -/
theorem textPieces_cons {c : Char} (hquote : c ≠ '"') (hslash : c ≠ '\\') (hc : 32 ≤ c.toNat)
    (cs : List Char) :
    textPieces (c :: cs) = (textPieces cs).map fun (ps, r) => (.char c :: ps, r) := by
  have hprinted : ¬c.toNat < 32 := Nat.not_lt.2 hc
  simp [textPieces, hslash, hprinted]

/-- The code of a character is not half of another one, whatever follows. -/
theorem pieceChars_code (c : Char) (ps : List Piece) :
    pieceChars (.code c.toNat :: ps) = (Letter.char c).chars ++ pieceChars ps := by
  have hvalid : c.toNat < 0xD800 ∨ 0xDFFF < c.toNat ∧ c.toNat < 0x110000 := c.valid
  have hhigh : isHighHalf c.toNat = false := by
    simp only [isHighHalf, Bool.and_eq_false_iff, decide_eq_false_iff_not]
    omega
  cases ps with
  | nil => simp [pieceChars, Letter.ofCode_toNat]
  | cons p ps =>
    cases p with
    | char d => simp [pieceChars, Letter.ofCode_toNat]
    | code n => simp [pieceChars, Letter.ofCode_toNat, hhigh]

theorem pieceChars_halves {c : Char} (hc : 0x10000 ≤ c.toNat) (ps : List Piece) :
    pieceChars (.code (0xD800 + (c.toNat - 0x10000) / 0x400) ::
      .code (0xDC00 + (c.toNat - 0x10000) % 0x400) :: ps) = c :: pieceChars ps := by
  have hvalid : c.toNat < 0xD800 ∨ 0xDFFF < c.toNat ∧ c.toNat < 0x110000 := c.valid
  have hhigh : isHighHalf (0xD800 + (c.toNat - 0x10000) / 0x400) = true := by
    simp only [isHighHalf, Bool.and_eq_true, decide_eq_true_eq]
    omega
  have hlow : isLowHalf (0xDC00 + (c.toNat - 0x10000) % 0x400) = true := by
    simp only [isLowHalf, Bool.and_eq_true, decide_eq_true_eq]
    omega
  have hsum : 0x10000 + (0xD800 + (c.toNat - 0x10000) / 0x400 - 0xD800) * 0x400 +
      (0xDC00 + (c.toNat - 0x10000) % 0x400 - 0xDC00) = c.toNat := by
    omega
  simp only [pieceChars, joinHalves, hhigh, hlow, Bool.and_self, if_true, hsum, Char.ofNat_toNat]

/-- What is written for a character gives pieces that say the character, whatever follows. -/
structure Spells (cs : List Char) (c : Char) : Prop where
  exists_pieces : ∃ ps,
    (∀ rest, textPieces (cs ++ rest) = (textPieces rest).map fun (qs, r) => (ps ++ qs, r)) ∧
    ∀ qs, pieceChars (ps ++ qs) = (Letter.char c).chars ++ pieceChars qs

/-- A piece of its own, for a character other than the mark of halves. -/
theorem Spells.single {cs : List Char} {c : Char} (hc : c ≠ halfMark)
    (hcs : ∀ rest, textPieces (cs ++ rest) = (textPieces rest).map fun (qs, r) => (.char c :: qs, r)) :
    Spells cs c :=
  ⟨[.char c], hcs, fun qs => by simp [pieceChars, Letter.chars_char hc]⟩

theorem spells_jsonChar (c : Char) : Spells (jsonChar c) c := by
  have hnamed {n : Nat} (hn : (c.toNat == n) = true) : c = Char.ofNat n := by
    rw [← beq_iff_eq.1 hn, Char.ofNat_toNat]
  unfold jsonChar
  split
  · next hc =>
    obtain rfl | rfl : c = '"' ∨ c = '\\' := by simpa using hc
    · exact .single (by decide) fun _ => rfl
    · exact .single (by decide) fun _ => rfl
  next hmarks =>
  split
  · next hc =>
    obtain rfl := beq_iff_eq.1 hc
    exact .single (by decide) fun _ => rfl
  split
  · next hc =>
    obtain rfl := beq_iff_eq.1 hc
    exact .single (by decide) fun _ => rfl
  split
  · next hc =>
    obtain rfl := beq_iff_eq.1 hc
    exact .single (by decide) fun _ => rfl
  split
  · next hc =>
    obtain rfl := hnamed hc
    exact .single (by decide) fun _ => rfl
  split
  · next hc =>
    obtain rfl := hnamed hc
    exact .single (by decide) fun _ => rfl
  split
  · next hc =>
    obtain ⟨hquote, hslash⟩ : c ≠ '"' ∧ c ≠ '\\' := by simpa using hmarks
    obtain ⟨hlow, hhigh⟩ : 32 ≤ c.toNat ∧ c.toNat < 127 := by simpa using hc
    exact .single (Letter.ne_halfMark (by omega)) fun rest => textPieces_cons hquote hslash hlow rest
  split
  · next hc =>
    refine ⟨[.code c.toNat], fun rest => ?_, fun qs => pieceChars_code c qs⟩
    exact textPieces_hexDigits hc rest
  · next hc =>
    have hvalid : c.toNat < 0xD800 ∨ 0xDFFF < c.toNat ∧ c.toNat < 0x110000 := c.valid
    refine ⟨[.code (0xD800 + (c.toNat - 0x10000) / 0x400),
      .code (0xDC00 + (c.toNat - 0x10000) % 0x400)], fun rest => ?_, fun qs => ?_⟩
    · simp only [List.append_assoc, List.cons_append]
      rw [textPieces_hexDigits (by omega), textPieces_hexDigits (by omega), Option.map_map]
      rfl
    · rw [Letter.chars_char (Letter.ne_halfMark (by omega))]
      exact pieceChars_halves (Nat.le_of_not_lt hc) qs

theorem exists_textPieces_quoted (cs rest : List Char) :
    ∃ ps, textPieces (cs.flatMap jsonChar ++ '"' :: rest) = some (ps, rest) ∧
      pieceChars ps = (cs.map Letter.char).flatMap Letter.chars := by
  induction cs with
  | nil => exact ⟨[], rfl, rfl⟩
  | cons c cs ih =>
    obtain ⟨qs, hqs, hchars⟩ := ih
    obtain ⟨ps, hps, hspelled⟩ := (spells_jsonChar c).exists_pieces
    refine ⟨ps ++ qs, ?_, ?_⟩
    · rw [List.flatMap_cons, List.append_assoc, hps, hqs]
      rfl
    · rw [hspelled, hchars, List.map_cons, List.flatMap_cons]

/-- A quoted text is read up to its closing mark. -/
theorem readText_quoted (cs rest : List Char) :
    readText ((lettersOf (ofChars cs)).flatMap jsonLetter ++ '"' :: rest) =
      .ok (ofChars cs, rest) := by
  obtain ⟨ps, hps, hchars⟩ := exists_textPieces_quoted cs rest
  have hletters : (cs.map Letter.char).flatMap jsonLetter = cs.flatMap jsonChar := by
    rw [List.flatMap_map]
    rfl
  rw [lettersOf_ofChars, hletters]
  simp only [readText, hps, hchars]
  rfl

end Serial

end NodeScript
