import Mathlib
import NodeScript.Proofs.Refusals
import NodeScript.Proofs.Sameness

/-!
Tables give back what is put into them. A write that succeeds is read back under every key that
means the same, and under all other keys the table reads as before. An array grows by a write just
behind its end and takes none further out; a map takes every key, and new ones go to its end.
Inserting into an array is writing just behind its end.
-/

namespace NodeScript

/-! ### Slots -/

@[simp]
theorem Number.whole?_int (i : Int) : (Number.int i).whole? = some i :=
  whole?_eq_some_iff.2 rfl

/-- The double nearest to an integer is whole. -/
theorem Number.exists_whole?_toFloat {i : Int} {x : Float} (h : (Number.int i).toFloat = .ok x) :
    ∃ j, (Number.float x).whole? = some j := by
  simp only [toFloat] at h
  split at h
  · cases h
  · next hinf =>
    obtain rfl := Except.ok.inj h
    rw [Dyadic.round_isInf_iff Nat.one_pos, Nat.mul_one, Nat.not_le] at hinf
    obtain ⟨d, m, hd, -, hm⟩ := Dyadic.exists_round_eq hinf (decide (i < 0))
    rw [Dyadic.ofFloat?_eq] at hd
    have hquantity := Quantity.ofUnpacked?_of_finite hd
    refine ⟨if d.negative then -m else m, whole?_eq_some_iff.2 (hquantity.trans ?_)⟩
    rw [Dyadic.value, hm]
    split <;> simp

/-- The number a key stands for in an array. A large integer is a fault. -/
theorem arraySlot_number (n : Number) :
    arraySlot (.number n) = n.toFloat.map fun _ => n.whole?.map (· - 1) := by
  have hslot {x : Float} (hx : n.toFloat = .ok x) : arraySlot (.number n) =
      .ok ((Number.float x).whole?.bind fun _ => n.truncate?.map (· - 1)) := by
    simp only [arraySlot, hx, bind, Except.bind]
    cases (Number.float x).whole? <;> rfl
  cases hx : n.toFloat with
  | error f => simp [arraySlot, hx, bind, Except.bind, Except.map]
  | ok x =>
    rw [hslot hx, Except.map]
    cases n with
    | int i =>
      obtain ⟨j, hj⟩ := Number.exists_whole?_toFloat hx
      rw [hj, Number.whole?_int, Number.truncate?_of_whole? (Number.whole?_int i), Option.bind_some]
    | float y =>
      obtain rfl : y = x := Except.ok.inj hx
      cases hw : (Number.float y).whole? with
      | none => rfl
      | some j => rw [Number.truncate?_of_whole? hw, Option.bind_some]
    | nan mark => cases (Number.float x).whole? <;> rfl

/-- A key means a slot just when it is a number within the doubles and stands for the next integer.
-/
theorem arraySlot_eq_some_iff {k : Key} {slot : Int} :
    arraySlot k = .ok (some slot) ↔
      ∃ n, k = .number n ∧ n.whole? = some (slot + 1) ∧ (slot + 1).natAbs < doubleLimit := by
  cases k with
  | number n =>
    rw [arraySlot_number]
    cases hx : n.toFloat with
    | error f =>
      obtain ⟨-, i, rfl, hi⟩ := Number.toFloat_eq_error hx
      simp only [Except.map, reduceCtorEq, Key.number.injEq, false_iff, not_exists, not_and]
      rintro _ rfl h
      obtain rfl := Option.some.inj ((Number.whole?_int i).symm.trans h)
      omega
    | ok x =>
      simp only [Except.map, Except.ok.injEq, Option.map_eq_some_iff, Key.number.injEq]
      constructor
      · rintro ⟨i, hi, rfl⟩
        refine ⟨n, rfl, by rwa [Int.sub_add_cancel], ?_⟩
        rw [Int.sub_add_cancel]
        cases n with
        | int j =>
          obtain rfl := Option.some.inj ((Number.whole?_int j).symm.trans hi)
          simp only [Number.toFloat] at hx
          split at hx
          · cases hx
          · next hinf =>
            rw [Dyadic.round_isInf_iff Nat.one_pos] at hinf
            omega
        | float y => exact Number.truncate?_float_lt (Number.truncate?_of_whole? hi)
        | nan mark => cases hi
      · rintro ⟨_, rfl, hi, -⟩
        exact ⟨slot + 1, hi, Int.add_sub_cancel slot 1⟩
  | _ => simp [arraySlot]

theorem Key.same_of_whole? {n m : Number} {i : Int} (hn : n.whole? = some i)
    (hm : m.whole? = some i) : (Key.number n == Key.number m) = true := by
  have heqv : n.eqv m = true :=
    Number.eqv_iff.2 ⟨_, Number.whole?_eq_some_iff.1 hn, Number.whole?_eq_some_iff.1 hm⟩
  change n.alike m = true
  cases n with
  | nan mark => cases hn
  | _ => exact heqv

theorem Number.whole?_of_alike {n m : Number} {i : Int} (h : n.alike m = true)
    (hn : n.whole? = some i) : m.whole? = some i := by
  have heqv : n.eqv m = true := by
    cases n with
    | nan mark => cases hn
    | _ => exact h
  obtain ⟨q, hnq, hmq⟩ := eqv_iff.1 heqv
  rw [whole?_eq_some_iff] at hn ⊢
  rwa [← hn, hnq]

/-- Keys of scripts are texts and numbers, so one that is the same as a number is a number. -/
theorem arraySlot_of_same {j k : Key} {slot : Int} (h : (k == j) = true) (hj : ∀ b, j ≠ .bool b)
    (hk : arraySlot k = .ok (some slot)) : arraySlot j = .ok (some slot) := by
  rw [arraySlot_eq_some_iff] at hk ⊢
  obtain ⟨n, rfl, hn, hlt⟩ := hk
  cases j with
  | number m => exact ⟨m, rfl, Number.whole?_of_alike h hn, hlt⟩
  | bool b => exact absurd rfl (hj b)
  | _ => cases h

theorem same_of_arraySlot {j k : Key} {slot : Int} (hj : arraySlot j = .ok (some slot))
    (hk : arraySlot k = .ok (some slot)) : (k == j) = true := by
  obtain ⟨n, rfl, hn, -⟩ := arraySlot_eq_some_iff.1 hk
  obtain ⟨m, rfl, hm, -⟩ := arraySlot_eq_some_iff.1 hj
  exact Key.same_of_whole? hn hm

/-! ### Tables -/

namespace Table

variable {t t' : Table} {items : List Value} {j k : Key} {v : Value}

theorem get?_array {slot : Int} (h : arraySlot k = .ok (some slot)) :
    (array items).get? k = .ok (if slot < 0 then none else items[slot.toNat]?) := by
  simp only [get?, h, bind, Except.bind]
  rfl

/-- What a write leaves of an array: it is to a slot up to the one behind the end, changes no other
slot, and lengthens the array just if it is behind the end. -/
theorem exists_of_put?_array (h : (array items).put? k v = .ok (some t')) :
    ∃ (slot : Nat) (items' : List Value), arraySlot k = .ok (some slot) ∧ slot ≤ items.length ∧
      t' = .array items' ∧ (∀ i, items'[i]? = if i = slot then some v else items[i]?) ∧
      items'.length = if slot = items.length then items.length + 1 else items.length := by
  simp only [put?, bind, Except.bind] at h
  cases hslot : arraySlot k with
  | error f => simp [hslot] at h
  | ok slot? =>
    cases slot? with
    | none =>
      rw [hslot] at h
      cases h
    | some slot =>
      simp only [hslot] at h
      split at h
      · cases h
      · next hbounds =>
        simp only [Bool.or_eq_true, decide_eq_true_eq, not_or, Int.not_lt] at hbounds
        obtain ⟨slot, rfl⟩ := Int.eq_ofNat_of_zero_le hbounds.1
        have hle : slot ≤ items.length := by exact_mod_cast hbounds.2
        split at h
        · next hend =>
          obtain rfl : slot = items.length := by exact_mod_cast hend
          obtain rfl := Option.some.inj (Except.ok.inj h)
          refine ⟨_, _, rfl, hle, rfl, fun i => ?_, by simp⟩
          grind
        · next hend =>
          have hne : slot ≠ items.length := by exact_mod_cast hend
          obtain rfl := Option.some.inj (Except.ok.inj h)
          refine ⟨_, _, rfl, hle, rfl, fun i => ?_, by simp [hne]⟩
          grind

/-- What is put under a key is found under every key of scripts that is the same. -/
theorem get?_put?_of_same (h : t.put? k v = .ok (some t')) (hk : (k == j) = true)
    (hj : ∀ b, j ≠ .bool b) : t'.get? j = .ok (some v) := by
  cases t with
  | array items =>
    obtain ⟨slot, items', hslot, -, rfl, hitems, -⟩ := exists_of_put?_array h
    rw [get?_array (arraySlot_of_same hk hj hslot)]
    simp [hitems]
  | map entries =>
    obtain rfl := Option.some.inj (Except.ok.inj h)
    exact congrArg Except.ok (Dict.get?_insert_of_same hk v entries)

/-- Under every key that is not the same, a table reads as before the write, faults included. -/
theorem get?_put?_of_not_same (h : t.put? k v = .ok (some t')) (hk : (k == j) = false) :
    t'.get? j = t.get? j := by
  cases t with
  | array items =>
    obtain ⟨slot, items', hslot, -, rfl, hitems, -⟩ := exists_of_put?_array h
    cases hj : arraySlot j with
    | error f =>
      simp only [get?, hj]
      rfl
    | ok slot? =>
      cases slot? with
      | none =>
        simp only [get?, hj]
        rfl
      | some i =>
        have hne : i ≠ slot := by
          rintro rfl
          simp [same_of_arraySlot hj hslot] at hk
        rw [get?_array hj, get?_array hj, hitems]
        grind
  | map entries =>
    obtain rfl := Option.some.inj (Except.ok.inj h)
    exact congrArg Except.ok (Dict.get?_insert_of_not_same hk v entries)

/-- The keys under which a table takes values. An array takes them at its places and just behind. -/
def Accepts (k : Key) : Table → Prop
  | .array items => ∃ n i, k = .number n ∧ n.whole? = some i ∧ 1 ≤ i ∧ i ≤ items.length + 1 ∧
      i.natAbs < doubleLimit
  | .map _ => True

/-- How a table grows by a write: an array by one item if it is just behind the end, and a map by
one key, which goes to the end, if it had none that is the same. -/
def GrowsBy (k : Key) : Table → Table → Prop
  | .array items, .array items' => items'.length =
      if k == .number (.int (items.length + 1)) then items.length + 1 else items.length
  | .map entries, .map entries' => entries'.keys =
      if entries.contains k then entries.keys else entries.keys ++ [k]
  | _, _ => False

theorem arraySlot_end {items : List Value} (hlt : items.length + 1 < doubleLimit) :
    arraySlot (.number (.int (items.length + 1))) = .ok (some items.length) :=
  arraySlot_eq_some_iff.2 ⟨_, rfl, Number.whole?_int _, by omega⟩

theorem growsBy_of_put? (h : t.put? k v = .ok (some t')) : t.GrowsBy k t' := by
  cases t with
  | array items =>
    obtain ⟨slot, items', hslot, -, rfl, -, hlength⟩ := exists_of_put?_array h
    obtain ⟨n, rfl, hn, hlt⟩ := arraySlot_eq_some_iff.1 hslot
    have hend : (Key.number n == Key.number (.int (items.length + 1))) = true ↔
        slot = items.length := by
      constructor
      · intro hsame
        have hwhole := Number.whole?_of_alike hsame hn
        have hnext := Option.some.inj ((Number.whole?_int _).symm.trans hwhole)
        omega
      · rintro rfl
        exact Key.same_of_whole? hn (Number.whole?_int _)
    simp only [GrowsBy, hend, hlength]
  | map entries =>
    obtain rfl := Option.some.inj (Except.ok.inj h)
    exact entries.keys_insert k v

theorem exists_put?_iff : (∃ t', t.put? k v = .ok (some t')) ↔ t.Accepts k := by
  cases t with
  | array items =>
    constructor
    · rintro ⟨t', h⟩
      obtain ⟨slot, items', hslot, hle, -⟩ := exists_of_put?_array h
      obtain ⟨n, rfl, hn, hlt⟩ := arraySlot_eq_some_iff.1 hslot
      exact ⟨n, _, rfl, hn, by omega, by omega, hlt⟩
    · rintro ⟨n, i, rfl, hn, hpos, hle, hlt⟩
      have hslot : arraySlot (.number n) = .ok (some (i - 1)) :=
        arraySlot_eq_some_iff.2 ⟨n, rfl, by rwa [Int.sub_add_cancel], by rwa [Int.sub_add_cancel]⟩
      simp only [put?, hslot, bind, Except.bind]
      rw [if_neg (by simp; omega)]
      split
      · exact ⟨_, rfl⟩
      · exact ⟨_, rfl⟩
  | map entries => exact iff_of_true ⟨_, rfl⟩ trivial

end Table

/-! ### Instructions -/

/-- What an evaluation in the context begins with. -/
def Context.draft (c : Context) : Draft := { heap := c.heap, room := c.room }

/-- The leaf is evaluated and reports success. -/
def Leaf.Succeeds (l : Leaf) (c c' : Context) : Prop :=
  ∃ r : Record, Exec.leaf l c = .ok (some r) c' ∧ r.lookup "status" = some (.text "success")

/-- The key is what is no number. -/
def Key.IsNaN (k : Key) : Prop :=
  ∃ n, k = .number n ∧ n.quantity? = none

/-- If a key comes out, it is none that only files have, and nothing has been made for it unless it
is what is no number. -/
def Eval.Settles (x : Eval (Except String Key)) : Prop :=
  ∀ d k d', x d = .ok (.ok k) d' → (∀ b, k ≠ .bool b) ∧ (k.IsNaN ∨ d' = d)

theorem Eval.settles_pure {k : Key} (hk : ∀ b, k ≠ .bool b) : Eval.Settles (pure (.ok k)) := by
  rintro d _ _ ⟨⟩
  exact ⟨hk, .inr rfl⟩

theorem Eval.settles_error {α : Type} (x : Eval α) (message : α → String) :
    Eval.Settles (do return .error (message (← x))) := by
  intro d k d' h
  simp only [bind, EStateM.bind] at h
  split at h <;> cases h

theorem Eval.settles_plain (v : Value) :
    Eval.Settles (do return .ok (.text (← Eval.plain v))) := by
  intro d k d' h
  simp only [bind, EStateM.bind, Eval.plain, Eval.ask_apply] at h
  cases hs : d.heap.plain d.room v with
  | error f =>
    rw [hs] at h
    cases h
  | ok s =>
    rw [hs] at h
    cases h
    exact ⟨nofun, .inr rfl⟩

/-- A number that gets a mark is no number. -/
theorem Eval.settles_newNumber (n : Number) :
    Eval.Settles (do return .ok (.number (← Eval.newNumber n))) := by
  intro d k d' h
  have happly : Eval.newNumber n d =
      .ok (d.heap.mark n).1 { d with heap := (d.heap.mark n).2 } := rfl
  simp only [bind, EStateM.bind, happly] at h
  cases h
  refine ⟨nofun, ?_⟩
  unfold Heap.mark
  split
  · exact .inl ⟨_, rfl, rfl⟩
  · exact .inr rfl

theorem settles_resolveKey (scope : Scope) (type : KeyType) (given : Value) :
    (resolveKey scope type given).Settles := by
  unfold resolveKey
  split
  · split
    · exact Eval.settles_error _ _
    · split
      · exact Eval.settles_pure nofun
      · exact Eval.settles_pure nofun
      · exact Eval.settles_plain _
  · unfold Eval.toNumber?
    cases given.toNumber? with
    | some n => exact Eval.settles_newNumber n
    | none => exact Eval.settles_error _ _
  · split
    · exact Eval.settles_pure nofun
    · exact Eval.settles_plain _

theorem Exec.leaf_apply (l : Leaf) (c : Context) :
    Exec.leaf l c =
      match l.eval c.scope c.draft with
      | .ok e d => .ok e.output ((Context.adopt { c with heap := {} } d).commit e)
      | .error f d => .error f (Context.adopt { c with heap := {} } d) := by
  simp only [Exec.leaf, bind, EStateM.bind, Context.evaluate_apply, Context.draft]
  cases l.eval c.scope { heap := c.heap, room := c.room } <;> rfl

/-- What is there stays as it is while keys, values and defaults are resolved. -/
theorem Realm.extends_of_ok {α : Type} {Q : α → Prop} {x : Eval α} {d d' : Draft} {a : α}
    (hx : (Realm.later d.heap).Keeps Q x) (h : x d = .ok a d') : d.heap.Extends d'.heap := by
  have hkept := hx d (.refl d.heap)
  rw [h] at hkept
  exact hkept.1

namespace SetTableValue

/-- The instruction comes to write a value under a key of a table: its variable holds the table, and
its key and its value resolve. -/
structure Writes (s : SetTableValue) (c : Context) (a : Address) (k : Key) (v : Value)
    (d' : Draft) : Prop where
  table : ∃ name, validName? s.tableVariable = some name ∧ c.scope.get name = .table a
  inside : a < c.heap.size
  resolved : ∃ d, resolveKey c.scope s.keyType s.keyValue c.draft = .ok (.ok k) d ∧
    resolveValue c.scope s.valueType s.valueSource d = .ok (.ok v) d'

variable {s : SetTableValue} {c c' : Context} {a : Address} {k : Key} {v : Value} {d' : Draft}

theorem Writes.extends (h : s.Writes c a k v d') : c.heap.Extends d'.heap := by
  obtain ⟨d, hkey, hvalue⟩ := h.resolved
  have hd : c.heap.Extends d.heap := Realm.extends_of_ok (Realm.stays_resolveKey _ _) hkey
  exact hd.trans (Realm.extends_of_ok
    (Realm.keeps_resolveValue (fun _ _ _ => trivial) _ trivial) hvalue)

/-- The instruction writes what the table is with the value, or refuses if the table does not take
it. -/
theorem Writes.eval_cases (h : s.Writes c a k v d') :
    match (c.heap.get a).put? k v with
    | .ok (some t) => ∃ r : Record, r.lookup "status" = some (.text "success") ∧
        s.eval c.scope c.draft = .ok { write := some (a, t), output := some r } d'
    | .ok none => ∀ e d, s.eval c.scope c.draft = .ok e d → ∃ r, e.output = some r ∧ r.IsError
    | .error f => s.eval c.scope c.draft = .error f d' := by
  obtain ⟨name, hname, htable⟩ := h.table
  obtain ⟨d, hkey, hvalue⟩ := h.resolved
  have hsame : d'.heap.get a = c.heap.get a := h.extends.kept a h.inside
  have hget : (get : Eval Draft) d' = .ok d' d' := rfl
  simp only [eval, hname, htable, write, bind, EStateM.bind, hkey, hvalue, hget, hsame,
    Eval.lift_apply]
  rcases (c.heap.get a).put? k v with f | _ | t
  · rfl
  · have hrefuses : Eval.Gives (fun e : Effect => ∃ r, e.output = some r ∧ r.IsError)
        (Eval.display k.value >>= fun shown => pure (.refusal c.scope "setTableValue"
          s!"Key {shown} is outside array bounds 1..{(c.heap.get a).size + 1}")) :=
      .andThen fun _ => .pure ⟨_, rfl, rfl⟩
    exact hrefuses d'
  · exact ⟨_, rfl, rfl⟩

/-- The instruction succeeds just if the table takes the value, and then nothing else changes. -/
theorem Writes.succeeds_iff (h : s.Writes c a k v d') :
    (Leaf.setTableValue s).Succeeds c c' ↔ ∃ t, (c.heap.get a).put? k v = .ok (some t) ∧
      c' = (Context.adopt { c with heap := {} } d').commit { write := some (a, t) } := by
  have hcases := h.eval_cases
  rw [Leaf.Succeeds, Exec.leaf_apply, Leaf.eval]
  generalize (c.heap.get a).put? k v = put at hcases
  rcases put with f | _ | t
  · simp [hcases]
  · refine ⟨fun hsucceeds => ?_, fun ⟨t, ht, _⟩ => by cases ht⟩
    obtain ⟨r, hrun, hr⟩ := hsucceeds
    generalize s.eval c.scope c.draft = result at hcases hrun
    cases result with
    | error f d => cases hrun
    | ok e d =>
      obtain ⟨r', hr', herror⟩ := hcases e d rfl
      obtain rfl := Option.some.inj (hr'.symm.trans (EStateM.Result.ok.inj hrun).1)
      exact absurd herror (Record.not_isError_of_status hr (by decide))
  · obtain ⟨r, hr, heval⟩ := hcases
    simp only [heval]
    constructor
    · rintro ⟨r', hrun, -⟩
      cases hrun
      exact ⟨t, rfl, rfl⟩
    · rintro ⟨t', ht, rfl⟩
      cases ht
      exact ⟨r, rfl, hr⟩

end SetTableValue

namespace GetTableValue

/-- The instruction comes to look a key of a table up: its names are valid, its variable holds the
table, and its default and its key resolve. -/
structure Reads (g : GetTableValue) (c : Context) (a : Address) (k : Key) : Prop where
  result : ∃ name, validName? g.resultVariable = some name
  table : ∃ name, validName? g.tableVariable = some name ∧ c.scope.get name = .table a
  inside : a < c.heap.size
  resolved : ∃ absent d d', Eval.literal g.defaultValue c.draft = .ok absent d ∧
    resolveKey c.scope g.keyType g.keyValue d = .ok (.ok k) d'

/-- The instruction succeeds and retrieves a value, which its result variable holds from then on. -/
def Retrieves (g : GetTableValue) (c : Context) (v : Value) : Prop :=
  ∃ (r : Record) (c' : Context), Exec.leaf (.getTableValue g) c = .ok (some r) c' ∧
    r.lookup "status" = some (.text "success") ∧ r.lookup "value_retrieved" = some (.value v) ∧
    ∀ name, g.resultVariable = some name → c'.bindings.get? name = some v

variable {g : GetTableValue} {c : Context} {a : Address} {k : Key} {v : Value}

theorem Reads.ne_bool (h : g.Reads c a k) (b : Bool) : k ≠ .bool b := by
  obtain ⟨absent, d, d', -, hkey⟩ := h.resolved
  exact (settles_resolveKey _ _ _ _ _ _ hkey).1 b

/-- The instruction sets its result to the entry and reports it; without an entry it warns. -/
theorem Reads.eval_cases (h : g.Reads c a k) :
    ∃ name d, validName? g.resultVariable = some name ∧
      match (c.heap.get a).get? k with
      | .ok (some v) => ∃ r : Record, r.lookup "status" = some (.text "success") ∧
          r.lookup "value_retrieved" = some (.value v) ∧
          g.eval c.scope c.draft = .ok { binding := some (name, v), output := some r } d
      | .ok none => ∀ e d, g.eval c.scope c.draft = .ok e d →
          ∃ r : Record, e.output = some r ∧ r.lookup "status" = some (.text "warning_not_found")
      | .error f => g.eval c.scope c.draft = .error f d := by
  obtain ⟨result, hresult⟩ := h.result
  obtain ⟨name, hname, htable⟩ := h.table
  obtain ⟨absent, d, d', hdefault, hkey⟩ := h.resolved
  have hextends : c.heap.Extends d.heap :=
    Realm.extends_of_ok (Realm.keeps_literal trivial) hdefault
  have hsame : d.heap.get a = c.heap.get a := hextends.kept a h.inside
  have htable? : Eval.table? (.table a) d = .ok (some (a, d.heap.get a)) d := rfl
  refine ⟨result, d', hresult, ?_⟩
  simp only [eval, hname, hresult, lookUp, htable, bind, EStateM.bind, hdefault, htable?, hkey,
    hsame, Eval.lift_apply]
  rcases (c.heap.get a).get? k with f | _ | v
  · rfl
  · intro e d he
    cases hs : Eval.plain k.value d' with
    | error f d₁ =>
      simp only [EStateM.bind, hs] at he
      cases he
    | ok shown d₁ =>
      simp only [EStateM.bind, hs] at he
      cases he
      exact ⟨_, rfl, rfl⟩
  · exact ⟨_, rfl, rfl, rfl⟩

/-- What is retrieved is what the table holds under the key. -/
theorem Reads.retrieves_iff (h : g.Reads c a k) :
    g.Retrieves c v ↔ (c.heap.get a).get? k = .ok (some v) := by
  obtain ⟨name, d, hname, hcases⟩ := h.eval_cases
  have hgiven : g.resultVariable = some name := (Option.filter_eq_some_iff.1 hname).1
  rw [Retrieves, Exec.leaf_apply, Leaf.eval]
  generalize (c.heap.get a).get? k = found at hcases
  rcases found with f | _ | w
  · simp [hcases]
  · refine ⟨fun hretrieves => ?_, nofun⟩
    obtain ⟨r, c', hrun, hr, -⟩ := hretrieves
    generalize g.eval c.scope c.draft = outcome at hcases hrun
    cases outcome with
    | error f d => cases hrun
    | ok e d =>
      obtain ⟨r', hr', hwarning⟩ := hcases e d rfl
      obtain rfl := Option.some.inj (hr'.symm.trans (EStateM.Result.ok.inj hrun).1)
      simp [Field.text, hwarning] at hr
  · obtain ⟨r, hr, hvalue, heval⟩ := hcases
    simp only [heval]
    constructor
    · rintro ⟨r', c', hrun, -, hvalue', -⟩
      obtain rfl := Option.some.inj (EStateM.Result.ok.inj hrun).1
      obtain rfl := Field.value.inj (Option.some.inj (hvalue.symm.trans hvalue'))
      rfl
    · rintro ⟨⟩
      refine ⟨r, _, rfl, hr, hvalue, fun name' hname' => ?_⟩
      obtain rfl := Option.some.inj (hgiven.symm.trans hname')
      exact Dict.get?_insert_of_same (beq_self_eq_true name) v _

end GetTableValue

namespace InsertIntoTable

/-- Inserting into an array writes it with the value behind its end. -/
theorem succeeds_iff {i : InsertIntoTable} {c c' : Context} {a : Address} {name : String}
    {items : List Value} {v : Value} {d : Draft} (hname : validName? i.tableVariable = some name)
    (htable : c.scope.get name = .table a) (hitems : c.heap.get a = .array items)
    (hvalue : resolveValue c.scope i.valueType i.valueSource c.draft = .ok (.ok v) d) :
    (Leaf.insertIntoTable i).Succeeds c c' ↔
      c' = (Context.adopt { c with heap := {} } d).commit
        { write := some (a, .array (items ++ [v])) } := by
  have htable? : Eval.table? (.table a) c.draft = .ok (some (a, .array items)) c.draft := by
    rw [← hitems]
    rfl
  rw [Leaf.Succeeds, Exec.leaf_apply]
  simp only [Leaf.eval, eval, hname, htable, bind, EStateM.bind, htable?, hvalue]
  constructor
  · rintro ⟨r, hrun, -⟩
    cases hrun
    rfl
  · rintro rfl
    exact ⟨_, rfl, rfl⟩

end InsertIntoTable

/-- From one state to the next a table has got a value under a key, and nothing else has changed. -/
structure Context.Sets (c c' : Context) (a : Address) (k : Key) (v : Value) : Prop where
  accepts : (c.heap.get a).Accepts k
  /-- The value is read back under every key that is the same, at any later time at which the table
  still holds the same. -/
  readBack : ∀ {g : GetTableValue} {c₂ : Context} {j : Key}, c₂.heap.get a = c'.heap.get a →
    g.Reads c₂ a j → (j = k ∧ ¬ k.IsNaN ∨ (k == j) = true) → g.Retrieves c₂ v
  /-- All other keys read as before. -/
  otherKeys : ∀ j, (k == j) = false → (c'.heap.get a).get? j = (c.heap.get a).get? j
  otherReads : ∀ {g g₂ : GetTableValue} {c₂ : Context} {j : Key}, c₂.heap.get a = c'.heap.get a →
    g.Reads c a j → g₂.Reads c₂ a j → (k == j) = false → ∀ w, g₂.Retrieves c₂ w ↔ g.Retrieves c w
  growsBy : (c.heap.get a).GrowsBy k (c'.heap.get a)
  bindings : c'.bindings = c.bindings
  otherTables : ∀ b < c.heap.size, b ≠ a → c'.heap.get b = c.heap.get b

theorem Key.same_self {k : Key} (hk : ∀ b, k ≠ .bool b) (h : ¬ k.IsNaN) : (k == k) = true := by
  rw [Key.same_iff]
  suffices hsome : k.identity? ≠ none by
    obtain ⟨i, hi⟩ := Option.ne_none_iff_exists'.1 hsome
    exact ⟨i, hi, hi⟩
  cases k with
  | number n =>
    have hn : n.quantity? ≠ none := fun hn => h ⟨n, rfl, hn⟩
    cases n with
    | nan mark => exact absurd rfl hn
    | _ => simpa [identity?, number?, Number.identity?] using hn
  | bool b => exact absurd rfl (hk b)
  | _ => simp [identity?]

namespace SetTableValue

variable {s : SetTableValue} {c c' : Context} {a : Address} {k : Key} {v : Value} {d : Draft}

theorem Writes.ne_bool (h : s.Writes c a k v d) (b : Bool) : k ≠ .bool b := by
  obtain ⟨d, hkey, -⟩ := h.resolved
  exact (settles_resolveKey _ _ _ _ _ _ hkey).1 b

theorem Writes.get_commit (h : s.Writes c a k v d) (t : Table) (b : Address) :
    ((Context.adopt { c with heap := {} } d).commit { write := some (a, t) }).heap.get b =
      if a = b then t else d.heap.get b := by
  change ((Context.adopt { c with heap := {} } d).heap.set a t).get b = _
  rw [Context.heap_adopt]
  exact d.heap.get_set a b t (h.inside.trans_le h.extends.size_le)

/-- A write that succeeds sets the value and changes nothing else. -/
theorem Writes.sets (h : s.Writes c a k v d) (hs : (Leaf.setTableValue s).Succeeds c c') :
    c.Sets c' a k v := by
  obtain ⟨t, hput, hc'⟩ := h.succeeds_iff.1 hs
  have hbindings : c'.bindings = c.bindings := by
    rw [hc', Context.bindings_commit rfl, Context.evaluated_adopt]
  have hget (b : Address) : c'.heap.get b = if a = b then t else d.heap.get b := by
    rw [hc', h.get_commit]
  have htable : c'.heap.get a = t := by rw [hget, if_pos rfl]
  have hother (j : Key) (hj : (k == j) = false) : t.get? j = (c.heap.get a).get? j :=
    Table.get?_put?_of_not_same hput hj
  refine ⟨Table.exists_put?_iff.1 ⟨t, hput⟩, ?_, ?_, ?_, ?_, hbindings, ?_⟩
  · intro g c₂ j hc₂ hg hj
    have hsame : (k == j) = true := by
      obtain ⟨rfl, hnan⟩ | hj := hj
      · exact Key.same_self h.ne_bool hnan
      · exact hj
    rw [hg.retrieves_iff, hc₂, htable]
    exact Table.get?_put?_of_same hput hsame hg.ne_bool
  · rwa [htable]
  · intro g g₂ c₂ j hc₂ hg hg₂ hj w
    rw [hg.retrieves_iff, hg₂.retrieves_iff, hc₂, htable, hother j hj]
  · rw [htable]
    exact Table.growsBy_of_put? hput
  · intro b hb hne
    rw [hget, if_neg hne.symm]
    exact h.extends.kept b hb

/-- A write just behind the end of an array is an insertion. -/
theorem Writes.inserts {i : InsertIntoTable} {items : List Value} (h : s.Writes c a k v d)
    (htable : i.tableVariable = s.tableVariable) (htype : i.valueType = s.valueType)
    (hsource : i.valueSource = s.valueSource) (hitems : c.heap.get a = .array items)
    (hk : (.number (.int (items.length + 1)) == k) = true)
    (hlt : items.length + 1 < doubleLimit) :
    ∃ c', (Leaf.insertIntoTable i).Succeeds c c' ∧ (Leaf.setTableValue s).Succeeds c c' ∧
      c'.heap.get a = .array (items ++ [v]) := by
  have hslot : arraySlot k = .ok (some items.length) :=
    arraySlot_of_same hk h.ne_bool (Table.arraySlot_end hlt)
  have hput : (Table.array items).put? k v = .ok (some (.array (items ++ [v]))) := by
    simp only [Table.put?, hslot, bind, Except.bind]
    rw [if_neg (by simp), if_pos trivial]
    rfl
  obtain ⟨name, hname, hholds⟩ := h.table
  obtain ⟨d', hkey, hvalue⟩ := h.resolved
  have hnan : ¬ k.IsNaN := by
    rintro ⟨n, rfl, hn⟩
    obtain ⟨_, ⟨⟩, hwhole, -⟩ := arraySlot_eq_some_iff.1 hslot
    rw [Number.whole?_eq_some_iff, hn] at hwhole
    cases hwhole
  obtain rfl := (settles_resolveKey _ _ _ _ _ _ hkey).2.resolve_left hnan
  rw [← htype, ← hsource] at hvalue
  rw [← htable] at hname
  refine ⟨_, (InsertIntoTable.succeeds_iff hname hholds hitems hvalue).2 rfl,
    h.succeeds_iff.2 ⟨_, hitems ▸ hput, rfl⟩, ?_⟩
  rw [h.get_commit, if_pos rfl]

/-- Tables give back what is put into them. Let an instruction come to write a value under a key of
a table. It succeeds just if the table accepts the key, and then the value is read back, all other
keys read as before, the table grows as it should and nothing else changes. If the table is an
array, of a length within the doubles, and the key the number just behind its end, inserting the
value does the same. -/
theorem entries_are_read_back (h : s.Writes c a k v d) :
    ((∃ c', (Leaf.setTableValue s).Succeeds c c') ↔ (c.heap.get a).Accepts k) ∧
    (∀ c', (Leaf.setTableValue s).Succeeds c c' → c.Sets c' a k v) ∧
    ∀ (i : InsertIntoTable) (items : List Value), i.tableVariable = s.tableVariable →
      i.valueType = s.valueType → i.valueSource = s.valueSource → c.heap.get a = .array items →
      (.number (.int (items.length + 1)) == k) = true → items.length + 1 < doubleLimit →
      ∃ c', (Leaf.insertIntoTable i).Succeeds c c' ∧ (Leaf.setTableValue s).Succeeds c c' ∧
        c'.heap.get a = .array (items ++ [v]) := by
  refine ⟨?_, fun c' hs => h.sets hs, ?_⟩
  · rw [← Table.exists_put?_iff]
    constructor
    · rintro ⟨c', hs⟩
      obtain ⟨t, hput, -⟩ := h.succeeds_iff.1 hs
      exact ⟨t, hput⟩
    · rintro ⟨t, hput⟩
      exact ⟨_, h.succeeds_iff.2 ⟨t, hput, rfl⟩⟩
  · intro i items htable htype hsource hitems hk hlt
    exact h.inserts htable htype hsource hitems hk hlt

/-- Writes a new array as the second item of an array. -/
def appending : SetTableValue where
  tableVariable := some "t"
  keyType := .numberLiteral
  keyValue := .text "2"
  valueType := .literal
  valueSource := .text "'[7]'"

/-- Reads an item whose number is in a variable. -/
def readingAt : GetTableValue where
  tableVariable := some "t"
  keyType := .variable
  keyValue := .text "x"
  resultVariable := some "y"
  defaultValue := .text "'none'"

/-- One variable holds an array of one item, another one a double. -/
def holdingPlace : Context where
  heap := { tables := #[.array [.nil]] }
  bindings := .ofList [("t", .table 0), ("x", .float 2.0)]

/-- What is written as item `2` is read back as item `2.0`. -/
theorem appending_read_back :
    let c' := (Exec.leaf (.setTableValue appending)).after holdingPlace
    (∃ d, appending.Writes holdingPlace 0 (.number (.int 2)) (.table 1) d) ∧
      holdingPlace.Sets c' 0 (.number (.int 2)) (.table 1) ∧
      readingAt.Retrieves c' (.table 1) := by
  intro c'
  have hwrites : appending.Writes holdingPlace 0 (.number (.int 2)) (.table 1) _ :=
    ⟨⟨"t", rfl, rfl⟩, by decide, _, rfl, rfl⟩
  have hs : (Leaf.setTableValue appending).Succeeds holdingPlace c' := ⟨_, rfl, rfl⟩
  have hsets := (entries_are_read_back hwrites).2.1 c' hs
  have hreads : readingAt.Reads c' 0 (.number (.float 2.0)) :=
    ⟨⟨"y", rfl⟩, ⟨"t", rfl, rfl⟩, by decide, _, _, _, rfl, rfl⟩
  exact ⟨⟨_, hwrites⟩, hsets, hsets.readBack rfl hreads (.inr (by decide +kernel))⟩

end SetTableValue

end NodeScript
