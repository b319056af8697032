import NodeScript.Header.ForLoop
import NodeScript.Proofs.Sameness

/-!
Maps that are visited in order. The search for the values under 1, 2, 3 and so on has no bound of
its own: it goes on until a number is missing. Each number that it finds takes up a key of its own,
however the key spells it, so the search ends within one probe more than there are keys, and what it
collects is the longest row of values without a gap.
-/

namespace NodeScript

/-! ### Keys that spell a number -/

namespace Key

variable {key : Key} {k l : Nat}

/-- The key counts as the number, whatever its kind, or is the decimal text of the number. -/
def Spells (key : Key) (k : Nat) : Prop :=
  key.number?.bind Number.quantity? = some (.finite k) ∨ key = .text (toString k)

theorem same_int_iff :
    (key == .number (.int k)) = true ↔ key.number?.bind Number.quantity? = some (.finite k) := by
  have hint : (Key.number (.int k)).identity? = some (.number (.inl (.finite k))) := rfl
  rw [same_iff, hint]
  cases key with
  | number n =>
    cases n with
    | nan mark => simp [identity?, number?, Number.identity?, Number.quantity?]
    | int m => simp [identity?, number?, Number.identity?, Number.quantity?, eq_comm]
    | float x => simp [identity?, number?, Number.identity?]
  | bool b => simp [identity?, number?, Number.identity?, Number.quantity?, eq_comm]
  | _ => simp [identity?, number?]

theorem same_text_iff {s : String} : (key == .text s) = true ↔ key = .text s := by
  change key.same (.text s) = true ↔ _
  cases key <;> simp [same, number?]

/-- A key spells one number only. -/
theorem Spells.unique (hk : key.Spells k) (hl : key.Spells l) : k = l := by
  obtain hk | rfl := hk
  · obtain hl | rfl := hl
    · simpa using hk.symm.trans hl
    · cases hk
  · obtain hl | hl := hl
    · cases hl
    · exact Nat.repr_inj.1 (Key.text.inj hl)

end Key

theorem Dict.isSome_get?_iff {κ α : Type} [BEq κ] {d : Dict κ α} {k : κ} :
    (d.get? k).isSome = true ↔ ∃ j ∈ d.keys, (j == k) = true := by
  simp [get?, keys]

namespace GenericFor

variable {entries : Dict Key Value} {k n index probes : Nat} {vs : List Value}

theorem itemAt?_eq (entries : Dict Key Value) (k : Nat) :
    itemAt? entries k =
      (entries.get? (.number (.int k))).or (entries.get? (.text (toString k))) := by
  unfold itemAt?
  cases entries.get? (.number (.int k)) <;> rfl

theorem isSome_itemAt?_iff :
    (itemAt? entries k).isSome = true ↔ ∃ key ∈ entries.keys, key.Spells k := by
  simp only [itemAt?_eq, Option.isSome_or, Bool.or_eq_true, Dict.isSome_get?_iff, Key.same_int_iff,
    Key.same_text_iff, Key.Spells, and_or_left, exists_or]

/-- There are no more numbers from 1 on that keys spell than there are keys. -/
theorem le_size_of_spelled (h : ∀ k, 1 ≤ k → k ≤ n → ∃ key ∈ entries.keys, key.Spells k) :
    n ≤ entries.size := by
  have hcard : (Finset.Icc 1 n).card ≤ entries.keys.toFinset.card := by
    refine Finset.card_le_card_of_forall_subsingleton (fun k key => key.Spells k)
      (fun k hk => ?_) ?_
    · rw [Finset.mem_Icc] at hk
      simpa using h k hk.1 hk.2
    · rintro key - k ⟨-, hk⟩ l ⟨-, hl⟩
      exact hk.unique hl
  calc n = (Finset.Icc 1 n).card := by rw [Nat.card_Icc, Nat.add_sub_cancel]
    _ ≤ entries.keys.toFinset.card := hcard
    _ ≤ entries.keys.length := List.toFinset_card_le _
    _ = entries.size := List.length_map _

/-! ### The search -/

/-- The search for values under consecutive numbers as it goes without any bound: from a number on
it makes so many probes, the last of which finds nothing, and collects these values. -/
inductive Probes (entries : Dict Key Value) : (index probes : Nat) → List Value → Prop
  | gap {index : Nat} (h : itemAt? entries index = none) : Probes entries index 1 []
  | found {index probes : Nat} {v : Value} {vs : List Value} (h : itemAt? entries index = some v)
      (rest : Probes entries (index + 1) probes vs) : Probes entries index (probes + 1) (v :: vs)

theorem Probes.probes_eq (h : Probes entries index probes vs) : probes = vs.length + 1 := by
  induction h with
  | gap => rfl
  | found h rest ih => rw [List.length_cons, ih]

theorem Probes.unique {probes' : Nat} {vs' : List Value} (h : Probes entries index probes vs)
    (h' : Probes entries index probes' vs') : vs = vs' := by
  induction h generalizing probes' vs' with
  | gap hnone =>
    cases h' with
    | gap => rfl
    | found hsome rest' => cases hnone.symm.trans hsome
  | found hsome rest ih =>
    cases h' with
    | gap hnone => cases hsome.symm.trans hnone
    | found hsome' rest' =>
      cases hsome.symm.trans hsome'
      rw [ih rest']

/-- Values that stand under the numbers in turn, with a gap behind them, are what the search finds. -/
theorem probes_of_gap (hvs : ∀ k < vs.length, itemAt? entries (index + k) = vs[k]?)
    (hgap : itemAt? entries (index + vs.length) = none) :
    Probes entries index (vs.length + 1) vs := by
  induction vs generalizing index with
  | nil => exact .gap hgap
  | cons v vs ih =>
    refine .found (hvs 0 (Nat.zero_lt_succ _)) (ih (fun k hk => ?_) ?_)
    · rw [Nat.add_assoc, Nat.add_comm 1 k]
      exact hvs (k + 1) (Nat.succ_lt_succ hk)
    · rw [Nat.add_assoc, Nat.add_comm 1 vs.length]
      exact hgap

theorem length_consecutiveFrom_le (entries : Dict Key Value) (count index : Nat) :
    (consecutiveFrom entries count index).length ≤ count := by
  fun_induction consecutiveFrom entries count index with
  | case1 index => exact Nat.le_refl 0
  | case2 index count v h ih => exact Nat.succ_le_succ ih
  | case3 index count h => exact Nat.zero_le _

theorem getElem?_consecutiveFrom (entries : Dict Key Value) (count index : Nat) :
    ∀ k < (consecutiveFrom entries count index).length,
      itemAt? entries (index + k) = (consecutiveFrom entries count index)[k]? := by
  fun_induction consecutiveFrom entries count index with
  | case1 index => exact nofun
  | case2 index count v h ih =>
    intro k hk
    cases k with
    | zero => exact h
    | succ k =>
      rw [Nat.add_comm k 1, ← Nat.add_assoc, Nat.add_comm 1 k, List.getElem?_cons_succ]
      exact ih k (Nat.lt_of_succ_lt_succ hk)
  | case3 index count h => exact nofun

/-- A search that stops before its bound stops at a gap. -/
theorem gap_of_length_lt (entries : Dict Key Value) (count index : Nat)
    (hlt : (consecutiveFrom entries count index).length < count) :
    itemAt? entries (index + (consecutiveFrom entries count index).length) = none := by
  fun_induction consecutiveFrom entries count index with
  | case1 index => cases hlt
  | case2 index count v h ih =>
    rw [List.length_cons, Nat.add_comm _ 1, ← Nat.add_assoc]
    exact ih (Nat.lt_of_succ_lt_succ hlt)
  | case3 index count h => exact h

theorem itemAt?_of_le_length (hpos : 1 ≤ k) (hk : k ≤ (consecutive entries).length) :
    itemAt? entries k = (consecutive entries)[k - 1]? := by
  have hlast : k - 1 < (consecutiveFrom entries entries.size 1).length := by
    unfold consecutive at hk
    omega
  have hitem := getElem?_consecutiveFrom entries entries.size 1 (k - 1) hlast
  rwa [Nat.add_sub_cancel' hpos] at hitem

theorem spelled_of_le_length (hpos : 1 ≤ k) (hk : k ≤ (consecutive entries).length) :
    ∃ key ∈ entries.keys, key.Spells k := by
  rw [← isSome_itemAt?_iff, itemAt?_of_le_length hpos hk, List.getElem?_eq_getElem (by omega)]
  rfl

/-- The bound on the search is never what stops it. -/
theorem gap_after_consecutive (entries : Dict Key Value) :
    itemAt? entries (1 + (consecutive entries).length) = none := by
  obtain hlt | heq := Nat.lt_or_eq_of_le (length_consecutiveFrom_le entries entries.size 1)
  · exact gap_of_length_lt entries entries.size 1 hlt
  · -- All keys are used up by the numbers before.
    rw [← Option.not_isSome_iff_eq_none, isSome_itemAt?_iff]
    intro hnext
    have hle : (consecutive entries).length + 1 ≤ entries.size := by
      refine le_size_of_spelled fun k hpos hk => ?_
      obtain hk | rfl := Nat.lt_or_eq_of_le hk
      · exact spelled_of_le_length hpos (by omega)
      · rwa [Nat.add_comm]
    unfold consecutive at hle
    omega

/-- The search for values under 1, 2, 3 and so on ends within one probe more than the map has keys,
and it can end in one way only. The row that it collects is as long as the longest row of numbers
from 1 on each of which some key spells, and its item at each place is the value under the number if
there is one, and else the value under the number's text. -/
theorem consecutive_is_longest (entries : Dict Key Value) :
    (∃ probes ≤ entries.size + 1, Probes entries 1 probes (consecutive entries)) ∧
    (∀ probes vs, Probes entries 1 probes vs → vs = consecutive entries ∧ probes = vs.length + 1) ∧
    IsGreatest {n | ∀ k, 1 ≤ k → k ≤ n → ∃ key ∈ entries.keys, key.Spells k}
      (consecutive entries).length ∧
    ∀ k, 1 ≤ k → k ≤ (consecutive entries).length →
      (consecutive entries)[k - 1]? =
        (entries.get? (.number (.int k))).or (entries.get? (.text (toString k))) := by
  have hprobes := probes_of_gap (getElem?_consecutiveFrom entries entries.size 1)
    (gap_after_consecutive entries)
  have hlength := length_consecutiveFrom_le entries entries.size 1
  refine ⟨⟨_, Nat.succ_le_succ hlength, hprobes⟩,
    fun probes vs h => ⟨h.unique hprobes, h.probes_eq⟩,
    ⟨fun k => spelled_of_le_length, fun n hn => ?_⟩, fun k hpos hk => ?_⟩
  · by_contra hlt
    have hnext := isSome_itemAt?_iff.2 (hn (1 + (consecutive entries).length) (by omega) (by omega))
    rw [gap_after_consecutive] at hnext
    cases hnext
  · rw [← itemAt?_of_le_length hpos hk, itemAt?_eq]

/-- A map whose keys spell 1, 2 and 3 in one way or in two, and 5. -/
def withGap : Dict Key Value :=
  .ofList [(.text "3", .text "c"), (.text "2", .text "b"), (.number (.int 3), .text "third"),
    (.bool true, .text "a"), (.number (.int 5), .text "e")]

theorem consecutive_withGap :
    consecutive withGap = [.text "a", .text "b", .text "third"] ∧
    (∃ probes ≤ 6, Probes withGap 1 probes [.text "a", .text "b", .text "third"]) ∧
    IsGreatest {n | ∀ k, 1 ≤ k → k ≤ n → ∃ key ∈ withGap.keys, key.Spells k} 3 := by
  have hrow : consecutive withGap = [.text "a", .text "b", .text "third"] := by decide +kernel
  obtain ⟨hends, -, hgreatest, -⟩ := consecutive_is_longest withGap
  rw [hrow] at hends hgreatest
  exact ⟨hrow, hends, hgreatest⟩

end GenericFor

end NodeScript
