import Mathlib.Data.List.TakeDrop
import NodeScript.Value.Literal

/-!
Limits of literals. A text that means a value can fail to be read only by what stands in it: more
digits than an integer may have, or more opening brackets than there are levels of nesting.
-/

namespace NodeScript

open Text Number

/-- How many decimal digits stand in a text. -/
def Text.digitCount (cs : List Char) : Nat := cs.countP isDigit

def Text.isOpening (c : Char) : Bool := c == '[' || c == '\x7b'

/-- How many brackets that begin a table stand in a text. -/
def Text.openingCount (cs : List Char) : Nat := cs.countP isOpening

/-! ### Integers -/

namespace Number

variable {cs : List Char} {digits : Nat}

theorem isDigit_of_digitIn? {c : Char} {d : Nat} (h : digitIn? 10 c = some d) :
    isDigit c = true := by
  unfold digitIn? at h
  unfold isDigit
  cases hv : digitValue? c with
  | some v => rfl
  | none =>
    -- A letter has a value of ten or more.
    simp only [hv] at h
    split at h
    · simp at h
      omega
    · split at h <;> simp at h
      omega

theorem length_digitRow? {ds : List Nat} (h : digitRow? 10 cs = some ds) :
    ds.length ≤ digitCount cs := by
  unfold digitCount
  fun_induction digitRow? 10 cs generalizing ds with
  | case1 => cases h
  | case2 c =>
    obtain ⟨d, hd, rfl⟩ := Option.map_eq_some_iff.1 h
    simp [isDigit_of_digitIn? hd]
  | case3 c cs ih =>
    obtain ⟨d, hd, h⟩ := Option.bind_eq_some_iff.1 h
    obtain ⟨ds', hds', ⟨⟩⟩ := Option.bind_eq_some_iff.1 h
    have hlength := ih hds'
    simp only [List.length_cons, List.countP_cons, isDigit_of_digitIn? hd, if_true]
    omega
  | case4 c cs hne hsep ih =>
    obtain ⟨d, hd, h⟩ := Option.bind_eq_some_iff.1 h
    obtain ⟨ds', hds', ⟨⟩⟩ := Option.bind_eq_some_iff.1 h
    have hlength := ih hds'
    simp only [List.length_cons, List.countP_cons, isDigit_of_digitIn? hd, if_true]
    omega

/-- No letter announces base ten. -/
theorem splitBase_ten (cs : List Char) : splitBase 10 cs = (10, cs) := by
  unfold splitBase baseOfMark?
  split
  · split
    · next announced _ hannounced =>
      have hne : announced ≠ 10 := by
        rintro rfl
        split at hannounced <;> simp at hannounced
      simp [hne.symm]
    · rfl
  · rfl

theorem splitSign_suffix (cs : List Char) : (splitSign cs).2 <:+ cs := by
  unfold splitSign
  split
  · exact List.suffix_cons ..
  · exact List.suffix_cons ..
  · exact List.suffix_rfl

theorem readInt_tooManyDigits (h : readInt 10 cs = .error (.tooManyDigits digits)) :
    digitLimit < digits ∧ digits ≤ digitCount cs := by
  simp only [readInt, splitBase_ten] at h
  split at h
  · cases h
  · split at h
    · cases h
    · next ds hds =>
      split at h
      · next hlong =>
        cases h
        simp only [Bool.and_eq_true, decide_eq_true_eq] at hlong
        have hrow := (splitSign_suffix cs).sublist.countP_le (p := isDigit)
        exact ⟨hlong.1, Nat.le_trans (length_digitRow? hds) hrow⟩
      · split at h <;> cases h

end Number

/-! ### Serial forms -/

namespace Serial

variable {α β : Type} {room : Nat} {cs rest : List Char}

/-- What a reader gives back: it leaves an end of the text, or fails by what stands in it. -/
def Bounded (room : Nat) (cs : List Char) : Except ReadError (α × List Char) → Prop
  | .ok (_, rest) => rest <:+ cs
  | .error .malformed => True
  | .error (.tooManyDigits digits) => digitLimit < digits ∧ digits ≤ digitCount cs
  | .error (.tooDeep _) => room < openingCount cs

namespace Bounded

variable {x : Except ReadError (α × List Char)}

theorem of_suffix (hs : rest <:+ cs) (h : Bounded room rest x) : Bounded room cs x := by
  match x with
  | .ok (_, _) => exact h.trans hs
  | .error .malformed => trivial
  | .error (.tooManyDigits _) => exact ⟨h.1, Nat.le_trans h.2 hs.sublist.countP_le⟩
  | .error (.tooDeep _) => exact Nat.lt_of_lt_of_le h hs.sublist.countP_le

/-- Inside a bracket there is one level less and one bracket less. -/
theorem inside {c : Char} (hc : isOpening c = true) (h : Bounded (room - 1) cs x) :
    Bounded room (c :: cs) x := by
  match x with
  | .ok (_, _) => exact h.trans (List.suffix_cons ..)
  | .error .malformed => trivial
  | .error (.tooManyDigits _) => exact ⟨h.1, Nat.le_trans h.2 (List.sublist_cons_self ..).countP_le⟩
  | .error (.tooDeep _) =>
    have hcount : openingCount (c :: cs) = openingCount cs + 1 := List.countP_cons_of_pos hc
    change room - 1 < openingCount cs at h
    change room < openingCount (c :: cs)
    omega

theorem andThen {f : α × List Char → Except ReadError (β × List Char)} (hx : Bounded room cs x)
    (hf : ∀ a rest, rest <:+ cs → Bounded room rest (f (a, rest))) : Bounded room cs (x >>= f) := by
  match x with
  | .ok (a, rest) => exact (hf a rest hx).of_suffix hx
  | .error .malformed => trivial
  | .error (.tooManyDigits _) => exact hx
  | .error (.tooDeep _) => exact hx

end Bounded

theorem skipSpaces_suffix (cs : List Char) : skipSpaces cs <:+ cs :=
  List.dropWhile_suffix _

theorem suffix_of_skipSpaces {c : Char} (h : skipSpaces cs = c :: rest) : rest <:+ cs :=
  (List.suffix_cons c rest).trans (h ▸ skipSpaces_suffix cs)

theorem textPieces_suffix {ps : List Piece} (h : textPieces cs = some (ps, rest)) :
    rest <:+ cs := by
  fun_induction textPieces cs generalizing ps with
  | case1 => cases h
  | case2 cs =>
    cases h
    exact List.suffix_cons ..
  | case3 a b c d cs hnone => cases h
  | case4 a b c d cs n hn ih =>
    obtain ⟨⟨ps', rest'⟩, hpieces, ⟨⟩⟩ := Option.map_eq_some_iff.1 h
    exact (ih hpieces).trans ⟨['\\', 'u', a, b, c, d], rfl⟩
  | case5 e cs hsep hnone => cases h
  | case6 e cs hsep c hc ih =>
    obtain ⟨⟨ps', rest'⟩, hpieces, ⟨⟩⟩ := Option.map_eq_some_iff.1 h
    exact (ih hpieces).trans ⟨['\\', e], rfl⟩
  | case7 => cases h
  | case8 c cs _ _ _ _ ih =>
    obtain ⟨⟨ps', rest'⟩, hpieces, ⟨⟩⟩ := Option.map_eq_some_iff.1 h
    exact (ih hpieces).trans (List.suffix_cons ..)

theorem readText_bounded (room : Nat) (cs : List Char) : Bounded room cs (readText cs) := by
  unfold readText
  split
  · next h => exact textPieces_suffix h
  · trivial

theorem spanWhole_append (cs : List Char) : (spanWhole cs).1 ++ (spanWhole cs).2 = cs := by
  unfold spanWhole
  split
  · rfl
  · simp [List.span_eq_takeWhile_dropWhile]

theorem spanPlaces_suffix (cs : List Char) : (spanPlaces cs).2 <:+ cs := by
  unfold spanPlaces
  split
  · next cs =>
    rw [List.span_eq_takeWhile_dropWhile]
    split
    · exact List.suffix_rfl
    · next hspan =>
      cases hspan
      exact (List.dropWhile_suffix _).trans (List.suffix_cons ..)
  · exact List.suffix_rfl

theorem spanExponent_suffix (cs : List Char) : (spanExponent cs).2 <:+ cs := by
  unfold spanExponent
  split
  · next e rest =>
    split
    · split
      next sign body hsign =>
      have hbody : body <:+ rest := by
        split at hsign <;> cases hsign
        · exact List.suffix_cons ..
        · exact List.suffix_cons ..
        · exact List.suffix_rfl
      rw [List.span_eq_takeWhile_dropWhile]
      split
      · exact List.suffix_rfl
      · next hspan =>
        cases hspan
        exact (List.dropWhile_suffix _).trans (hbody.trans (List.suffix_cons ..))
    · exact List.suffix_rfl
  · exact List.suffix_rfl

theorem readNumber_bounded (room : Nat) (cs : List Char) : Bounded room cs (readNumber cs) := by
  unfold readNumber
  split
  next sign body hsign =>
  have hcs : sign ++ body = cs := by
    split at hsign <;> cases hsign <;> rfl
  have hwhole := spanWhole_append body
  split
  · trivial
  · next whole rest _ hspan =>
    rw [hspan] at hwhole
    have hrest : (spanExponent (spanPlaces rest).2).2 <:+ cs := by
      refine (spanExponent_suffix _).trans ((spanPlaces_suffix rest).trans ?_)
      exact ⟨sign ++ whole, by rw [List.append_assoc, hwhole, hcs]⟩
    have hread : (sign ++ whole).Sublist cs :=
      List.IsPrefix.sublist ⟨rest, by rw [List.append_assoc, hwhole, hcs]⟩
    dsimp only
    split
    · split
      · exact hrest
      · next hdigits =>
        obtain ⟨hlimit, hcount⟩ := readInt_tooManyDigits hdigits
        exact ⟨hlimit, Nat.le_trans hcount hread.countP_le⟩
      · trivial
    · split
      · exact hrest
      · trivial

theorem readWord?_suffix {t : Tree} (h : readWord? cs = some (t, rest)) : rest <:+ cs := by
  obtain ⟨⟨word, tree⟩, -, h⟩ := List.exists_of_findSome?_eq_some h
  dsimp only at h
  split at h
  · cases h
    exact List.drop_suffix ..
  · cases h

/-- A bracket is read if there is a level for it. -/
theorem readTable_bounded {c : Char} (room : Nat) (cs : List Char) (hc : isOpening c = true)
    (work : NestedWork) {inside : Except ReadError (α × List Char)}
    (h : Bounded (room - 1) cs inside) :
    Bounded room (c :: cs) (do
      if room = 0 then .error (.tooDeep work)
      inside) := by
  split
  · next hroom =>
    subst hroom
    exact List.countP_pos_iff.2 ⟨c, List.mem_cons_self, hc⟩
  · exact h.inside hc

/-- What the readers do in so many steps. -/
structure ReadsBounded (fuel : Nat) : Prop where
  value (room : Nat) (cs : List Char) : Bounded room cs (readValue fuel room cs)
  items (room : Nat) (cs : List Char) : Bounded room cs (readItems fuel room cs)
  members (room : Nat) (cs : List Char) : Bounded room cs (readMembers fuel room cs)

theorem readsBounded (fuel : Nat) : ReadsBounded fuel := by
  induction fuel with
  | zero => exact ⟨fun _ _ => trivial, fun _ _ => trivial, fun _ _ => trivial⟩
  | succ fuel ih =>
    refine ⟨fun room cs => ?_, fun room cs => ?_, fun room cs => ?_⟩
    · unfold readValue
      split
      · next rest =>
        refine ((readText_bounded room rest).andThen fun s _ _ => ?_).of_suffix
          (List.suffix_cons ..)
        exact List.suffix_rfl
      · next rest =>
        refine readTable_bounded room rest (by decide) .readList ?_
        split
        · next hafter => exact suffix_of_skipSpaces hafter
        · refine ((ih.items (room - 1) _).andThen fun items _ _ => ?_).of_suffix
            (skipSpaces_suffix rest)
          exact List.suffix_rfl
      · next rest =>
        refine readTable_bounded room rest (by decide) .readMap ?_
        split
        · next hafter => exact suffix_of_skipSpaces hafter
        · refine ((ih.members (room - 1) _).andThen fun members _ _ => ?_).of_suffix
            (skipSpaces_suffix rest)
          exact List.suffix_rfl
      · split
        · next hword => exact readWord?_suffix hword
        · exact readNumber_bounded room _
    · unfold readItems
      refine (ih.value room cs).andThen fun item rest _ => ?_
      dsimp only
      split
      · next hafter => exact suffix_of_skipSpaces hafter
      · next after hafter =>
        refine ((ih.items room _).andThen fun items _ _ => ?_).of_suffix
          ((skipSpaces_suffix after).trans (suffix_of_skipSpaces hafter))
        exact List.suffix_rfl
      · trivial
    · unfold readMembers
      split
      · next rest =>
        refine ((readText_bounded room rest).andThen fun name rest _ => ?_).of_suffix
          (List.suffix_cons ..)
        dsimp only
        split
        · next after hafter =>
          refine ((ih.value room _).andThen fun value rest _ => ?_).of_suffix
            ((skipSpaces_suffix after).trans (suffix_of_skipSpaces hafter))
          dsimp only
          split
          · next hend => exact suffix_of_skipSpaces hend
          · next after hafter =>
            refine ((ih.members room _).andThen fun members _ _ => ?_).of_suffix
              ((skipSpaces_suffix after).trans (suffix_of_skipSpaces hafter))
            exact List.suffix_rfl
          · trivial
        · trivial
      · trivial

theorem read_eq_error {e : ReadError} (h : read room cs = .error e) :
    Bounded room cs (.error e : Except ReadError (Unit × List Char)) := by
  have hvalue := ((readsBounded (2 * cs.length + 2)).value room _).of_suffix (skipSpaces_suffix cs)
  unfold read at h
  generalize readValue (2 * cs.length + 2) room (skipSpaces cs) = x at hvalue h
  match x, e with
  | .error _, .malformed => trivial
  | .error _, .tooManyDigits _ =>
    cases h
    exact hvalue
  | .error _, .tooDeep _ =>
    cases h
    exact hvalue
  | .ok (t, rest), e =>
    simp only [bind, Except.bind] at h
    split at h <;> cases h
    trivial

end Serial

/-! ### Literals -/

namespace Text

theorem trimChars_sublist (cs : List Char) : (trimChars cs).Sublist cs := by
  have hend := (List.dropWhile_suffix isBlank (l := (cs.dropWhile isBlank).reverse)).sublist
  have hstart : (cs.dropWhile isBlank).Sublist cs := (List.dropWhile_suffix isBlank).sublist
  exact (List.reverse_sublist.1 (by simpa [trimChars] using hend)).trans hstart

end Text

namespace Literal

variable {room : Nat} {cs : List Char} {f : Fault}

/-- Why a text that means a value cannot be read. -/
inductive Unreadable (room : Nat) (cs : List Char) : Fault → Prop
  | digits (n : Nat) (hlimit : digitLimit < n) (hcount : n ≤ digitCount cs) :
      Unreadable room cs (.integerTextTooLong n)
  | brackets (work : NestedWork) (hcount : room < openingCount cs) :
      Unreadable room cs (.tooDeep work)

theorem Unreadable.of_sublist {part : List Char} (h : Unreadable room part f)
    (hs : part.Sublist cs) : Unreadable room cs f := by
  cases h with
  | digits n hlimit hcount => exact .digits n hlimit (Nat.le_trans hcount hs.countP_le)
  | brackets work hcount => exact .brackets work (Nat.lt_of_lt_of_le hcount hs.countP_le)

theorem readWhole_eq_error (h : readWhole cs = .error f) : Unreadable room cs f := by
  unfold readWhole at h
  split at h
  · cases h
  · next hread =>
    cases h
    obtain ⟨hlimit, hcount⟩ := readInt_tooManyDigits hread
    exact .digits _ hlimit hcount
  · cases h

theorem readQuoted_eq_error (h : readQuoted room cs = .error f) : Unreadable room cs f := by
  unfold readQuoted at h
  split at h
  · split at h
    · cases h
    · next hread =>
      cases h
      obtain ⟨hlimit, hcount⟩ := Serial.read_eq_error hread
      exact .digits _ hlimit hcount
    · next hread =>
      cases h
      exact .brackets _ (Serial.read_eq_error hread)
    · cases h
  · cases h

theorem unquoted?_sublist {inner : List Char} (h : unquoted? cs = some inner) :
    inner.Sublist cs := by
  unfold unquoted? at h
  split at h
  · next mark rest =>
    split at h
    · split at h
      · cases h
        exact (List.dropLast_sublist rest).trans (List.sublist_cons_self ..)
      · cases h
    · cases h
  · cases h

/-- A text fails to be read by more digits or brackets than there may be. -/
theorem read_eq_error {s : String} (h : read room s = .error f) : Unreadable room s.toList f := by
  refine .of_sublist ?_ (Text.trimChars_sublist s.toList)
  simp only [read] at h
  split at h
  · cases h
  · split at h
    · cases h
    · split at h
      · cases h
      · split at h
        · exact readWhole_eq_error h
        · cases h
        · split at h
          · next hinner => exact (readQuoted_eq_error h).of_sublist (unquoted?_sublist hinner)
          · cases h

end Literal

end NodeScript
