import Mathlib
import NodeScript.Proofs.RawLookup
import NodeScript.Proofs.Refusals
import NodeScript.Proofs.Sameness

/-!
Equality of tables goes by their components. Two arrays are equal just when they are equally long
and equal at every place, two maps just when they have the same keys and are equal under each, with
one exception: between components, though not between the operands of a comparison, a truth value
equals the number that it counts as.
-/

namespace NodeScript

namespace Value

/-- One is a truth value and the other one the number that it counts as. -/
def CountsAs : Value → Value → Prop
  | .bool b, .number n | .number n, .bool b => n.eqv (.int (if b then 1 else 0)) = true
  | _, _ => False

/-- All numbers that the value itself consists of are numbers. -/
def NaNFree : Value → Prop
  | .number n => n.quantity? ≠ none
  | .vector v => v.x.quantity? ≠ none ∧ v.y.quantity? ≠ none ∧ v.z.quantity? ≠ none
  | _ => True

end Value

/-- How tables of one kind are compared: place by place, or entry by entry with the other map's. -/
def Table.Covers (R : Value → Value → Prop) : Table → Table → Prop
  | .array vs, .array ws => List.Forall₂ R vs ws
  | .map vs, .map ws =>
    vs.size = ws.size ∧ ∀ e ∈ vs.entries, ∃ w, ws.get? e.1 = some w ∧ R e.2 w
  | _, _ => False

namespace Number

variable {n m : Number}

theorem eqv_comm : n.eqv m = m.eqv n := by
  rw [Bool.eq_iff_iff, eqv_iff, eqv_iff]
  simp only [and_comm]

theorem eqv_self (hn : n.quantity? ≠ none) : n.eqv n = true := by
  obtain ⟨q, hq⟩ := Option.ne_none_iff_exists'.1 hn
  exact eqv_iff.2 ⟨q, hq, hq⟩

theorem alike_eq_eqv (hn : n.quantity? ≠ none) : n.alike m = n.eqv m := by
  cases n with
  | nan mark => exact absurd rfl hn
  | _ => rfl

end Number

namespace Heap

variable {h : Heap} {a b : Address} {n m room : Nat} {v w : Value}

/-! ### Nesting -/

/-- No more than so many tables lie inside each other. A table that contains itself has no bound. -/
def Nests (h : Heap) : Nat → Value → Prop
  | 0, v => ∀ a, v ≠ .table a
  | n + 1, .table a => ∀ v ∈ (h.get a).values, h.Nests n v
  | _ + 1, _ => True

theorem exists_same_of_not_table (hv : ∀ a, v ≠ .table a) (w : Value) :
    ∃ r, ∀ room, h.same room v w = .ok r := by
  cases v with
  | table a => exact absurd rfl (hv a)
  | _ => cases w <;> exact ⟨_, fun room => by cases room <;> rfl⟩

variable {f g : Value → Value → Except Fault Bool}

theorem allSame_congr {vs : List Value} (hfg : ∀ v ∈ vs, ∀ w, f v w = g v w) (ws : List Value) :
    allSame f vs ws = allSame g vs ws := by
  induction vs generalizing ws with
  | nil => cases ws <;> rfl
  | cons v vs ih =>
    cases ws with
    | nil => rfl
    | cons w ws =>
      rw [allSame, allSame, hfg v List.mem_cons_self,
        ih fun v hv => hfg v (List.mem_cons_of_mem _ hv)]

theorem allMatched_congr {other : Dict Key Value} {entries : List (Key × Value)}
    (hfg : ∀ e ∈ entries, ∀ w, f e.2 w = g e.2 w) :
    allMatched f other entries = allMatched g other entries := by
  induction entries with
  | nil => rfl
  | cons e es ih =>
    rw [allMatched, allMatched, ih fun e he => hfg e (List.mem_cons_of_mem _ he)]
    cases other.get? e.1 with
    | none => rfl
    | some w => simp only [hfg e List.mem_cons_self]

/-- More levels than there are make no difference. -/
theorem same_of_le (hv : h.Nests n v) (hnm : n ≤ m) (w : Value) : h.same m v w = h.same n v w := by
  induction n generalizing v w m with
  | zero =>
    obtain ⟨r, hr⟩ := exists_same_of_not_table hv w
    rw [hr, hr]
  | succ n ih =>
    obtain ⟨m, rfl⟩ : ∃ k, m = k + 1 := ⟨m - 1, by omega⟩
    cases v with
    | table a =>
      cases w with
      | table b =>
        have hinside : ∀ v ∈ (h.get a).values, ∀ w, h.same m v w = h.same n v w :=
          fun v hv' w => ih (hv v hv') (by omega) w
        rw [same, same]
        split
        · rfl
        · cases ha : h.get a with
          | array vs =>
            rw [ha] at hinside
            cases h.get b with
            | array ws =>
              have hitems : allSame (h.same m) vs ws = allSame (h.same n) vs ws :=
                allSame_congr hinside ws
              simp only [hitems]
            | map ws => rfl
          | map vs =>
            rw [ha] at hinside
            cases h.get b with
            | array ws => rfl
            | map ws =>
              simp only [allMatched_congr fun e he => hinside e.2 (List.mem_map_of_mem he)]
      | _ => rfl
    | _ => cases w <;> rfl

/-! ### Verdicts -/

/-- A comparison comes to a verdict, which says whether something holds. -/
def Decides (x : Except Fault Bool) (P : Prop) : Prop :=
  ∃ r, x = .ok r ∧ (r = true ↔ P)

theorem decides_false {P : Prop} (hP : ¬ P) : Decides (.ok false) P :=
  ⟨false, rfl, by simp [hP]⟩

theorem Decides.congr {x : Except Fault Bool} {P Q : Prop} (hx : Decides x P) (hPQ : P ↔ Q) :
    Decides x Q := by
  obtain ⟨r, hr, hiff⟩ := hx
  exact ⟨r, hr, hiff.trans hPQ⟩

variable {R : Value → Value → Prop}

theorem decides_allSame {vs : List Value} (hf : ∀ v ∈ vs, ∀ w, Decides (f v w) (R v w))
    (ws : List Value) : Decides (allSame f vs ws) (List.Forall₂ R vs ws) := by
  induction vs generalizing ws with
  | nil => cases ws <;> simp [allSame, Decides]
  | cons v vs ih =>
    cases ws with
    | nil => simp [allSame, Decides]
    | cons w ws =>
      obtain ⟨first, hfirst, hiff⟩ := hf v List.mem_cons_self w
      rw [allSame, hfirst, List.forall₂_cons, ← hiff]
      cases first with
      | true => exact (ih (fun v hv => hf v (List.mem_cons_of_mem _ hv)) ws).congr (by simp)
      | false => exact decides_false (by simp)

theorem decides_allMatched {entries : List (Key × Value)}
    (hf : ∀ e ∈ entries, ∀ w, Decides (f e.2 w) (R e.2 w)) (other : Dict Key Value) :
    Decides (allMatched f other entries)
      (∀ e ∈ entries, ∃ w, other.get? e.1 = some w ∧ R e.2 w) := by
  induction entries with
  | nil => simp [allMatched, Decides]
  | cons e es ih =>
    obtain ⟨k, v⟩ := e
    simp only [allMatched, List.forall_mem_cons]
    cases hk : other.get? k with
    | none => exact decides_false (by simp)
    | some w =>
      obtain ⟨first, hfirst, hiff⟩ := hf (k, v) List.mem_cons_self w
      simp only [Option.some.injEq, exists_eq_left', ← hiff, hfirst]
      cases first with
      | true => exact (ih fun e he => hf e (List.mem_cons_of_mem _ he)).congr (by simp)
      | false => exact decides_false (by simp)

theorem decides_same_tables (hne : a ≠ b)
    (hf : ∀ v ∈ (h.get a).values, ∀ w, Decides (h.same n v w) (R v w)) :
    Decides (h.same (n + 1) (.table a) (.table b)) ((h.get a).Covers R (h.get b)) := by
  rw [same, if_neg hne]
  generalize h.get a = t at hf
  cases t with
  | array vs =>
    cases h.get b with
    | array ws =>
      dsimp only
      split
      · exact decides_allSame hf ws
      · next hlength => exact decides_false fun hall => hlength hall.length_eq
    | map ws => exact decides_false id
  | map vs =>
    cases h.get b with
    | array ws => exact decides_false id
    | map ws =>
      dsimp only
      split
      · next hsize =>
        exact (decides_allMatched (fun e he => hf e.2 (List.mem_map_of_mem he)) ws).congr
          (by simp [Table.Covers, hsize])
      · next hsize => exact decides_false fun hall => hsize hall.1

/-- Values that do not nest too deeply can be compared. -/
theorem exists_same (hv : h.Nests n v) (w : Value) : ∃ r, h.same n v w = .ok r := by
  induction n generalizing v w with
  | zero =>
    obtain ⟨r, hr⟩ := exists_same_of_not_table hv w
    exact ⟨r, hr 0⟩
  | succ n ih =>
    cases v with
    | table a =>
      cases w with
      | table b =>
        by_cases hab : a = b
        · exact ⟨true, by rw [same, if_pos hab]⟩
        · have hinside : ∀ v ∈ (h.get a).values, ∀ w,
              Decides (h.same n v w) (h.same n v w = .ok true) := by
            intro v hv' w
            obtain ⟨r, hr⟩ := ih (hv v hv') w
            exact ⟨r, hr, by simp [hr]⟩
          obtain ⟨r, hr, -⟩ := decides_same_tables hab hinside
          exact ⟨r, hr⟩
      | _ => exact ⟨false, rfl⟩
    | _ => cases w <;> exact ⟨_, rfl⟩

/-- Components are held for equal if they are, or if one counts as the other. -/
theorem same_eq_true_iff (hv : v.NaNFree) :
    h.same room v w = .ok true ↔ h.equal room v w = .ok true ∨ v.CountsAs w := by
  cases v with
  | bool b =>
    cases w with
    | number m =>
      simp [same, equal, Value.type, Value.CountsAs, Value.number?, Number.alike, Number.eqv_comm]
    | _ => simp [same, equal, Value.type, Value.CountsAs, Value.number?]
  | number n =>
    cases w with
    | bool b | number m =>
      simp [same, equal, Value.type, Value.CountsAs, Value.number?, Number.alike_eq_eqv hv]
    | _ => simp [same, equal, Value.type, Value.CountsAs, Value.number?]
  | _ => cases w <;> simp [same, equal, Value.type, Value.CountsAs, Value.number?]

theorem equal_self (hv : v.NaNFree) : h.equal room v v = .ok true := by
  cases v with
  | number n => simp [equal, Number.eqv_self hv]
  | vector w =>
    obtain ⟨hx, hy, hz⟩ := hv
    simp [equal, same, Vector3.same, Number.alike_eq_eqv, Number.eqv_self, hx, hy, hz]
  | moment m => simp [equal, same, Moment.same_iff]
  | table a => cases room <;> simp [equal, same]
  | bool b =>
    simp [equal, same, Value.number?, Number.alike_eq_eqv, Number.eqv_self, Number.quantity?]
  | _ => simp [equal, same]

end Heap

/-! ### Keys -/

namespace Dict

variable {α : Type} {d d' : Dict Key α} {j k : Key}

/-- Every key is the same as itself and as no other one. -/
structure Proper (d : Dict Key α) : Prop where
  distinct : Distinct d.entries
  self : ∀ e ∈ d.entries, (e.1 == e.1) = true

instance (entries : List (Key × α)) : Decidable (Distinct entries) :=
  inferInstanceAs (Decidable (entries.Pairwise fun e e' => (e.1 == e'.1) = false))

instance (d : Dict Key α) : Decidable d.Proper :=
  decidable_of_iff (Distinct d.entries ∧ ∀ e ∈ d.entries, (e.1 == e.1) = true)
    ⟨fun h => ⟨h.1, h.2⟩, fun h => ⟨h.distinct, h.self⟩⟩

theorem contains_iff : d.contains k = true ↔ ∃ e ∈ d.entries, (e.1 == k) = true := by
  simp [contains]

theorem get?_of_same (h : (j == k) = true) (d : Dict Key α) : d.get? j = d.get? k := by
  have hsame (e : Key × α) : (e.1 == j) = (e.1 == k) := BEq.congr_right h
  simp only [get?, hsame]

theorem Proper.get?_of_mem (hd : d.Proper) {e : Key × α} (he : e ∈ d.entries) :
    d.get? e.1 = some e.2 := by
  obtain ⟨entries⟩ := d
  obtain ⟨hdistinct, hself⟩ := hd
  simp only [get?] at *
  induction entries with
  | nil => cases he
  | cons e' es ih =>
    obtain ⟨hhead, htail⟩ := List.pairwise_cons.1 hdistinct
    obtain rfl | he := List.mem_cons.1 he
    · simp [hself e List.mem_cons_self]
    · rw [List.find?_cons_of_neg (by simp [hhead e he])]
      exact ih he htail fun e he => hself e (List.mem_cons_of_mem _ he)

/-- What a map tells its keys apart by. -/
def identities (d : Dict Key α) : List (Option Key.Identity) :=
  d.entries.map (·.1.identity?)

theorem Proper.nodup_identities (hd : d.Proper) : d.identities.Nodup := by
  refine List.pairwise_map.2 (hd.distinct.imp_of_mem fun he he' hne heq => ?_)
  obtain ⟨i, hi, -⟩ := Key.same_iff.1 (hd.self _ he)
  have hsame := Key.same_iff.2 ⟨i, hi, heq ▸ hi⟩
  simp [hsame] at hne

theorem identities_subset (h : ∀ e ∈ d.entries, d'.contains e.1 = true) :
    d.identities ⊆ d'.identities := by
  intro i hi
  obtain ⟨e, he, rfl⟩ := List.mem_map.1 hi
  obtain ⟨e', he', hsame⟩ := contains_iff.1 (h e he)
  obtain ⟨i, hi', hi⟩ := Key.same_iff.1 hsame
  exact List.mem_map.2 ⟨e', he', hi'.trans hi.symm⟩

theorem contains_of_identities_subset (h : d.identities ⊆ d'.identities)
    (hk : d.contains k = true) : d'.contains k = true := by
  obtain ⟨e, he, hsame⟩ := contains_iff.1 hk
  obtain ⟨i, hi, hki⟩ := Key.same_iff.1 hsame
  obtain ⟨e', he', hi'⟩ := List.mem_map.1 (h (List.mem_map_of_mem he))
  exact contains_iff.2 ⟨e', he', Key.same_iff.2 ⟨i, hi'.trans hi, hki⟩⟩

/-- Two maps have the same keys just when they are equally large and one has all keys of the other.
-/
theorem Proper.contains_eq_iff (hd : d.Proper) (hd' : d'.Proper) :
    (∀ k, d.contains k = d'.contains k) ↔
      d.size = d'.size ∧ ∀ e ∈ d.entries, d'.contains e.1 = true := by
  have hsub : d.identities ⊆ d'.identities → d.identities.Subperm d'.identities :=
    hd.nodup_identities.subperm
  have hsub' : d'.identities ⊆ d.identities → d'.identities.Subperm d.identities :=
    hd'.nodup_identities.subperm
  have hlength (d : Dict Key α) : d.identities.length = d.size := by simp [identities, size]
  constructor
  · intro h
    have hall : ∀ e ∈ d.entries, d'.contains e.1 = true := fun e he =>
      h e.1 ▸ contains_iff.2 ⟨e, he, hd.self e he⟩
    have hall' : ∀ e ∈ d'.entries, d.contains e.1 = true := fun e he =>
      h e.1 ▸ contains_iff.2 ⟨e, he, hd'.self e he⟩
    have hle := (hsub (identities_subset hall)).length_le
    have hle' := (hsub' (identities_subset hall')).length_le
    rw [hlength, hlength] at hle hle'
    exact ⟨le_antisymm hle hle', hall⟩
  · rintro ⟨hsize, hall⟩ k
    have hperm := (hsub (identities_subset hall)).perm_of_length_le
      (by rw [hlength, hlength, hsize])
    rw [Bool.eq_iff_iff]
    exact ⟨contains_of_identities_subset hperm.subset,
      contains_of_identities_subset hperm.symm.subset⟩

end Dict

/-! ### Tables -/

/-- Two tables of one kind that stand in a relation place by place, or key by key for the same keys.
-/
def Table.Matches (R : Value → Value → Prop) : Table → Table → Prop
  | .array vs, .array ws => List.Forall₂ R vs ws
  | .map vs, .map ws => (∀ k, vs.contains k = ws.contains k) ∧
      ∀ k v w, vs.get? k = some v → ws.get? k = some w → R v w
  | _, _ => False

/-- The keys of a map are proper ones. -/
def Table.Proper : Table → Prop
  | .array _ => True
  | .map entries => entries.Proper

instance : (t : Table) → Decidable t.Proper
  | .array _ => .isTrue trivial
  | .map entries => inferInstanceAs (Decidable entries.Proper)

namespace Heap

variable {h : Heap} {a b : Address} {room : Nat}

/-- Comparing is matching, as no map has a key twice. -/
theorem covers_iff {R : Value → Value → Prop} {t u : Table} (ht : t.Proper) (hu : u.Proper) :
    t.Covers R u ↔ t.Matches R u := by
  cases t with
  | array vs => cases u <;> exact Iff.rfl
  | map vs =>
    cases u with
    | array ws => exact Iff.rfl
    | map ws =>
      have hvs : vs.Proper := ht
      have hcontains {k : Key} {w : Value} (hw : ws.get? k = some w) : ws.contains k = true := by
        rw [Dict.contains_eq, hw]
        rfl
      rw [Table.Covers, Table.Matches, hvs.contains_eq_iff hu]
      constructor
      · rintro ⟨hsize, hall⟩
        refine ⟨⟨hsize, fun e he => ?_⟩, fun k v w hv hw => ?_⟩
        · obtain ⟨w, hw, -⟩ := hall e he
          exact hcontains hw
        · obtain ⟨e, hfind, rfl⟩ := Option.map_eq_some_iff.1 hv
          obtain ⟨w', hw', hR⟩ := hall e (List.mem_of_find?_eq_some hfind)
          have hsame : (e.1 == k) = true := by simpa using List.find?_some hfind
          rw [Dict.get?_of_same hsame, hw] at hw'
          obtain rfl := Option.some.inj hw'
          exact hR
      · rintro ⟨⟨hsize, hall⟩, hR⟩
        refine ⟨hsize, fun e he => ?_⟩
        have hw := hall e he
        rw [Dict.contains_eq] at hw
        obtain ⟨w, hw⟩ := Option.isSome_iff_exists.1 hw
        exact ⟨w, hw, hR e.1 e.2 w (hvs.get?_of_mem he) hw⟩

theorem matches_self {R : Value → Value → Prop} {t : Table} (hR : ∀ v ∈ t.values, R v v) :
    t.Matches R t := by
  cases t with
  | array vs => exact List.forall₂_same.2 hR
  | map vs =>
    refine ⟨fun _ => rfl, fun k v w hv hw => ?_⟩
    obtain rfl := Option.some.inj (hv.symm.trans hw)
    obtain ⟨e, he, rfl⟩ := Dict.exists_mem_of_get? hv
    exact hR e.2 (List.mem_map_of_mem he)

/-- Tables are equal just when their components are, or count as each other. -/
theorem decides_equal_tables (hnests : h.Nests room (.table a)) (ha : (h.get a).Proper)
    (hb : (h.get b).Proper) (hnan : ∀ v ∈ (h.get a).values, v.NaNFree) :
    Decides (h.equal room (.table a) (.table b))
      ((h.get a).Matches (fun v w => h.equal room v w = .ok true ∨ v.CountsAs w) (h.get b)) := by
  change Decides (h.same room (.table a) (.table b)) _
  by_cases hab : a = b
  · subst hab
    have hself := matches_self (R := fun v w => h.equal room v w = .ok true ∨ v.CountsAs w)
      fun v hv => .inl (equal_self (hnan v hv))
    exact ⟨true, equal_self (v := .table a) trivial, by simp [hself]⟩
  cases room with
  | zero => exact absurd rfl (hnests a)
  | succ n =>
    have hinside : ∀ v ∈ (h.get a).values, ∀ w,
        Decides (h.same n v w) (h.equal (n + 1) v w = .ok true ∨ v.CountsAs w) := by
      intro v hv w
      obtain ⟨r, hr⟩ := exists_same (hnests v hv) w
      refine ⟨r, hr, ?_⟩
      rw [← same_eq_true_iff (hnan v hv), same_of_le (hnests v hv) n.le_succ, hr]
      simp
    exact (decides_same_tables hab hinside).congr (covers_iff ha hb)

end Heap

theorem Table.Matches.imp {R S : Value → Value → Prop} {t u : Table} (h : t.Matches R u)
    (hRS : ∀ v ∈ t.values, ∀ w ∈ u.values, R v w → S v w) : t.Matches S u := by
  cases t with
  | array vs =>
    cases u with
    | array ws =>
      obtain ⟨hlength, hall⟩ := List.forall₂_iff_zip.1 h
      refine List.forall₂_iff_zip.2 ⟨hlength, fun {v w} hvw => ?_⟩
      exact hRS v (List.of_mem_zip hvw).1 w (List.of_mem_zip hvw).2 (hall hvw)
    | map ws => exact h
  | map vs =>
    cases u with
    | array ws => exact h
    | map ws =>
      refine ⟨h.1, fun k v w hv hw => hRS v ?_ w ?_ (h.2 k v w hv hw)⟩
      · obtain ⟨e, he, rfl⟩ := Dict.exists_mem_of_get? hv
        exact List.mem_map_of_mem he
      · obtain ⟨e, he, rfl⟩ := Dict.exists_mem_of_get? hw
        exact List.mem_map_of_mem he

/-! ### Conditions -/

namespace Condition

variable {c : Condition} {scope : Scope} {d₀ d : Draft} {v w : Value}

/-- The condition comes to compare two values, both of which can be displayed. -/
structure Compares (c : Condition) (scope : Scope) (d₀ d : Draft) (v w : Value) : Prop where
  operands : ∃ d₁, headerOperand scope c.lhsKind c.lhs .nil d₀ = .ok v d₁ ∧
    headerOperand scope c.rhsKind c.rhs .nil d₁ = .ok w d
  shown : (∃ s, d.heap.display d.room v = .ok s) ∧ ∃ s, d.heap.display d.room w = .ok s

theorem Compares.eval_eq (hc : c.Compares scope d₀ d v w) {met : Bool}
    (hmet : Comparison.holds d.heap d.room v (.ofName c.operator) w = .ok met) :
    c.eval scope d₀ = .ok met d := by
  obtain ⟨d₁, hlhs, hrhs⟩ := hc.operands
  obtain ⟨⟨s, hs⟩, ⟨t, ht⟩⟩ := hc.shown
  simp only [eval, bind, EStateM.bind, hlhs, hrhs, Eval.display, Eval.ask_apply, hmet, hs, ht]
  rfl

end Condition

namespace Heap

variable {h : Heap} {a b : Address} {room : Nat}

/-- Equality of tables goes by their components. Let one of two tables nest no deeper than there is
room for and hold no component that is no number. Then they can be compared, and they are equal just
when they are of one kind and their components are equal, or a truth value and the number that it
counts as. Where no truth value meets a number, it is equality all the way down, and conditions that
ask for equality or for its contrary have just that verdict. Operands that are a truth value and a
number are never equal themselves. -/
theorem tables_equal_by_components (hnests : h.Nests room (.table a)) (ha : (h.get a).Proper)
    (hb : (h.get b).Proper) (hnan : ∀ v ∈ (h.get a).values, v.NaNFree) :
    (∃ r, h.equal room (.table a) (.table b) = .ok r ∧
      (r = true ↔
        (h.get a).Matches (fun v w => h.equal room v w = .ok true ∨ v.CountsAs w) (h.get b)) ∧
      ((∀ v ∈ (h.get a).values, ∀ w ∈ (h.get b).values, ¬ v.CountsAs w) →
        (r = true ↔ (h.get a).Matches (fun v w => h.equal room v w = .ok true) (h.get b))) ∧
      ∀ (c : Condition) (scope : Scope) (d₀ d : Draft), d.heap = h → d.room = room →
        c.Compares scope d₀ d (.table a) (.table b) →
        (c.operator = "==" → c.eval scope d₀ = .ok r d) ∧
        (c.operator = "~=" → c.eval scope d₀ = .ok (!r) d)) ∧
    ∀ (t : Bool) (n : Number),
      h.equal room (.bool t) (.number n) = .ok false ∧
      h.equal room (.number n) (.bool t) = .ok false := by
  obtain ⟨r, hr, hiff⟩ := decides_equal_tables hnests ha hb hnan
  refine ⟨⟨r, hr, hiff, fun hno => hiff.trans ⟨fun hall => ?_, fun hall => ?_⟩, ?_⟩,
    fun _ _ => ⟨rfl, rfl⟩⟩
  · exact hall.imp fun v hv w hw hvw => hvw.resolve_right (hno v hv w hw)
  · exact hall.imp fun v hv w hw hvw => .inl hvw
  · rintro c scope d₀ d rfl rfl hc
    refine ⟨fun hop => hc.eval_eq ?_, fun hop => hc.eval_eq ?_⟩
    · rw [hop]
      exact hr
    · rw [hop]
      change (return !(← d.heap.equal d.room (.table a) (.table b)) : Except Fault Bool) = _
      rw [hr]
      rfl

/-- Two maps with their keys in another order, each with an array in it. -/
def mapsOfArrays : Heap where
  tables := #[.map ⟨[(.text "x", .table 2), (.text "y", .nil)]⟩,
    .map ⟨[(.text "y", .nil), (.text "x", .table 3)]⟩,
    .array [.int 1, .bool true], .array [.float 1.0, .bool true]]

/-- They are equal, as `1` equals `1.0` and there is no number where the other one has a truth
value. -/
theorem mapsOfArrays_equal_by_components :
    mapsOfArrays.equal 2 (.table 0) (.table 1) = .ok true ∧
      (mapsOfArrays.get 0).Matches (fun v w => mapsOfArrays.equal 2 v w = .ok true)
        (mapsOfArrays.get 1) := by
  have hnests : mapsOfArrays.Nests 2 (.table 0) := by
    simp [mapsOfArrays, Nests, get, Table.values, Value.int]
  have hproper : (mapsOfArrays.get 0).Proper ∧ (mapsOfArrays.get 1).Proper := by decide +kernel
  have hequal : mapsOfArrays.equal 2 (.table 0) (.table 1) = .ok true := by decide +kernel
  obtain ⟨⟨r, hr, -, hiff, -⟩, -⟩ := tables_equal_by_components hnests hproper.1 hproper.2 (by
    simp [mapsOfArrays, get, Table.values, Value.NaNFree])
  obtain rfl := Except.ok.inj (hequal.symm.trans hr)
  refine ⟨hequal, (hiff ?_).1 rfl⟩
  simp [mapsOfArrays, get, Table.values, Value.CountsAs]

/-- An array with a truth value and an array with the number that it counts as. -/
def truthBesideOne : Heap where
  tables := #[.array [.bool true], .array [.int 1]]

/-- These arrays are equal, though a truth value and a number never are. -/
theorem truthBesideOne_equal :
    truthBesideOne.equal 1 (.table 0) (.table 1) = .ok true ∧
      ¬ (truthBesideOne.get 0).Matches (fun v w => truthBesideOne.equal 1 v w = .ok true)
        (truthBesideOne.get 1) := by
  refine ⟨by decide +kernel, ?_⟩
  simp [truthBesideOne, get, Table.Matches, equal, Value.type, Value.int]

end Heap

end NodeScript
