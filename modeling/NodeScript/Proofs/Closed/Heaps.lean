import NodeScript.Proofs.Limits.Trees

/-!
Heaps stay closed. New tables, new marks and new contents of a table leave no reference without a
table, as long as what is put in mentions only what the heap holds.
-/

namespace NodeScript

variable {h g : Heap}

/-! ### Growing heaps -/

/-- A heap that has all addresses and marks of another one, whatever its tables contain. -/
structure Heap.Grows (h g : Heap) : Prop where
  size_le : h.size ≤ g.size
  marks_le : h.nextMark ≤ g.nextMark

theorem Heap.Grows.refl (h : Heap) : h.Grows h := ⟨Nat.le_refl _, Nat.le_refl _⟩

theorem Heap.Grows.trans {k : Heap} (hg : h.Grows g) (hk : g.Grows k) : h.Grows k :=
  ⟨hg.size_le.trans hk.size_le, hg.marks_le.trans hk.marks_le⟩

theorem Heap.Extends.grows (hg : h.Extends g) : h.Grows g := ⟨hg.size_le, hg.marks_le⟩

theorem Number.Within.later {n : Number} (hn : n.Within h) (hg : h.Grows g) : n.Within g := by
  cases n with
  | nan m => exact Nat.lt_of_lt_of_le hn hg.marks_le
  | _ => trivial

theorem Value.Within.later {v : Value} (hv : v.Within h) (hg : h.Grows g) : v.Within g := by
  cases v with
  | number n => exact Number.Within.later hv hg
  | vector v => exact ⟨hv.1.later hg, hv.2.1.later hg, hv.2.2.later hg⟩
  | table a => exact Nat.lt_of_lt_of_le hv hg.size_le
  | _ => trivial

theorem Table.Within.later {t : Table} (ht : t.Within h) (hg : h.Grows g) : t.Within g := by
  cases t with
  | array items => exact fun v hv => (ht v hv).later hg
  | map d => exact fun e he => ⟨(ht e he).1.later hg, (ht e he).2.later hg⟩

/-! ### What keeps heaps closed -/

@[simp] theorem Heap.size_set (h : Heap) (a : Address) (t : Table) : (h.set a t).size = h.size := by
  simp [set, size]

theorem Heap.grows_set (h : Heap) (a : Address) (t : Table) : h.Grows (h.set a t) :=
  ⟨(h.size_set a t).ge, Nat.le_refl _⟩

theorem Heap.get_set_cases (h : Heap) (a b : Address) (t : Table) :
    (h.set a t).get b = t ∨ (h.set a t).get b = h.get b := by
  by_cases ha : a < h.size
  · rw [get_set h a b t ha]
    split
    · exact .inl rfl
    · exact .inr rfl
  · refine .inr ?_
    rw [set, Array.setIfInBounds_eq_of_size_le (Nat.le_of_not_lt ha)]

namespace Heap.Closed

variable (hh : h.Closed)

include hh

theorem get_within (a : Address) : (h.get a).Within h := by
  by_cases ha : a < h.size
  · exact hh.tables a ha
  · rw [Heap.get_of_le (Nat.le_of_not_lt ha)]
    exact nofun

theorem alloc {t : Table} (ht : t.Within h) : (h.alloc t).2.Closed := by
  have hg := (h.extends_alloc t).grows
  refine ⟨hh.marks_pos, fun a _ => ?_⟩
  rw [Heap.get_alloc]
  split
  · exact ht.later hg
  · exact (hh.get_within a).later hg

theorem set (a : Address) {t : Table} (ht : t.Within h) : (h.set a t).Closed := by
  have hg := h.grows_set a t
  refine ⟨hh.marks_pos, fun b _ => ?_⟩
  obtain hget | hget := h.get_set_cases a b t
  · rw [hget]
    exact ht.later hg
  · rw [hget]
    exact (hh.get_within b).later hg

/-- A number takes a new mark or stays as it is. -/
theorem mark {n : Number} (hn : n.Within h) :
    (h.mark n).2.Closed ∧ (h.mark n).1.Within (h.mark n).2 := by
  unfold Heap.mark
  split
  · have hg : h.Grows { h with nextMark := h.nextMark + 1 } := ⟨Nat.le_refl _, Nat.le_succ _⟩
    exact ⟨⟨Nat.succ_pos _, fun a ha => (hh.tables a ha).later hg⟩, Nat.lt_succ_self _⟩
  · exact ⟨hh, hn⟩

theorem markVector {v : Vector3} (hv : (Value.vector v).Within h) :
    (h.markVector v).2.Closed ∧ (Value.vector (h.markVector v).1).Within (h.markVector v).2 := by
  obtain ⟨hx, hy, hz⟩ := hv
  obtain ⟨hxs, hx⟩ := hh.mark hx
  have hgx := (h.extends_mark v.x).grows
  obtain ⟨hys, hy⟩ := hxs.mark (hy.later hgx)
  have hgy := ((h.mark v.x).2.extends_mark v.y).grows
  obtain ⟨hzs, hz⟩ := hys.mark (hz.later (hgx.trans hgy))
  have hgz := (((h.mark v.x).2.mark v.y).2.extends_mark v.z).grows
  exact ⟨hzs, hx.later (hgy.trans hgz), hy.later hgz, hz⟩

theorem markKey {k : Key} (hk : k.value.Within h) :
    (h.markKey k).2.Closed ∧ (h.markKey k).1.value.Within (h.markKey k).2 := by
  cases k with
  | number n => exact hh.mark hk
  | _ => exact ⟨hh, trivial⟩

end Heap.Closed

/-! ### Numbers that are computed

They have no marks until they are stored. -/

theorem Number.within_ofText? {s : String} {n : Number} (hn : ofText? s = some n) : n.Within h := by
  unfold ofText? at hn
  dsimp only at hn
  split at hn
  · obtain ⟨_, -, rfl⟩ := Option.map_eq_some_iff.1 hn
    trivial
  · split at hn
    · cases hn
      trivial
    · obtain ⟨_, -, rfl⟩ := Option.map_eq_some_iff.1 hn
      trivial

theorem Value.Within.toNumber? {v : Value} (hv : v.Within h) {n : Number}
    (hn : v.toNumber? = some n) : n.Within h := by
  cases v with
  | number m =>
    cases hn
    exact hv
  | text s => exact Number.within_ofText? hn
  | _ => cases hn

theorem Value.within_toNumberIn? {v : Value} {base : Int} {n : Number}
    (hn : v.toNumberIn? base = some n) : n.Within h := by
  cases v with
  | text s =>
    simp only [toNumberIn?, Number.ofTextIn?] at hn
    split at hn
    · cases hn
    · obtain ⟨_, -, rfl⟩ := Option.map_eq_some_iff.1 hn
      trivial
  | _ => cases hn

theorem Number.within_lift {onInts : Int → Int → Int} {onFloats : Float → Float → Float}
    {a b n : Number} (hn : lift onInts onFloats a b = .ok n) : n.Within h := by
  unfold lift at hn
  split at hn
  · cases hn
    trivial
  · obtain ⟨x, -, hn⟩ := Serial.exists_of_bind hn
    obtain ⟨y, -, ⟨⟩⟩ := Serial.exists_of_bind hn
    trivial

theorem Number.within_div {a b n : Number} (hn : a.div b = .ok n) : n.Within h := by
  unfold div at hn
  split at hn
  · dsimp only at hn
    split at hn
    · cases hn
    · cases hn
      trivial
  · obtain ⟨x, -, hn⟩ := Serial.exists_of_bind hn
    obtain ⟨y, -, ⟨⟩⟩ := Serial.exists_of_bind hn
    trivial

theorem Number.within_pow {a b n : Number} (hn : a.pow b = .ok n) : n.Within h := by
  unfold pow at hn
  split at hn
  · cases hn
  · split at hn
    · dsimp only at hn
      split at hn
      · cases hn
      · split at hn
        · cases hn
        · split at hn
          · cases hn
            split <;> trivial
          · cases hn
            trivial
    · cases hn

theorem Operation.within_apply {op : Operation} {a b n : Number}
    (hn : op.apply a b = .ok (.number n)) : n.Within h := by
  cases op with
  | add | subtract | multiply =>
    obtain ⟨m, hm, ⟨⟩⟩ := Serial.exists_of_bind hn
    exact Number.within_lift hm
  | divide =>
    unfold apply at hn
    dsimp only at hn
    split at hn
    · cases hn
    · obtain ⟨m, hm, ⟨⟩⟩ := Serial.exists_of_bind hn
      exact Number.within_div hm
  | modulo =>
    unfold apply at hn
    dsimp only at hn
    split at hn
    · cases hn
    · obtain ⟨m, hm, ⟨⟩⟩ := Serial.exists_of_bind hn
      exact Number.within_lift hm
  | power =>
    unfold apply at hn
    dsimp only at hn
    split at hn
    · next hm =>
      cases hn
      exact Number.within_pow hm
    · cases hn
  | unknown name => cases hn

/-! ### Entries of tables -/

theorem Table.Within.get? {t : Table} (ht : t.Within h) {k : Key} {v : Value}
    (hv : t.get? k = .ok (some v)) : v.Within h := by
  cases t with
  | array items =>
    obtain ⟨slot?, -, hv⟩ := Serial.exists_of_bind hv
    cases slot? with
    | none => cases hv
    | some slot =>
      dsimp only at hv
      split at hv
      · cases hv
      · exact ht v (List.mem_of_getElem? (Except.ok.inj hv))
  | map d =>
    obtain ⟨e, he, rfl⟩ := Option.map_eq_some_iff.1 (Except.ok.inj hv)
    exact (ht e (List.mem_of_find?_eq_some he)).2

theorem Table.Within.put? {t t' : Table} (ht : t.Within h) {k : Key} (hk : k.value.Within h)
    {v : Value} (hv : v.Within h) (hr : t.put? k v = .ok (some t')) : t'.Within h := by
  cases t with
  | array items =>
    obtain ⟨slot?, -, hr⟩ := Serial.exists_of_bind hr
    cases slot? with
    | none => cases hr
    | some slot =>
      dsimp only at hr
      split at hr
      · cases hr
      · split at hr
        · cases hr
          exact List.forall_mem_append.2 ⟨ht, List.forall_mem_singleton.2 hv⟩
        · cases hr
          intro w hw
          obtain hw | rfl := List.mem_or_eq_of_mem_set hw
          · exact ht w hw
          · exact hv
  | map d =>
    cases hr
    exact Dict.forall_put (P := fun k : Key => k.value.Within h) (Q := fun v : Value => v.Within h)
      hk hv ht

/-! ### What is built -/

/-- What no relocation changes has only marks that every heap has given away. -/
theorem Number.within_of_fixed {n : Number} (hn : ∀ ρ : Relocation, n.move ρ = n)
    (hh : h.Closed) : n.Within h := by
  cases n with
  | nan m =>
    let ρ : Relocation := ⟨0, 0, h.nextMark, 1, hh.marks_pos⟩
    have hfixed : ρ.mark m = m := Number.nan.inj (hn ρ)
    by_contra hle
    have hmoved : ρ.mark m = m + 1 := ρ.mark_of_le (Nat.le_of_not_lt hle)
    omega
  | _ => trivial

theorem Key.within_of_fixed {k : Key} (hk : ∀ ρ : Relocation, k.move ρ = k) (hh : h.Closed) :
    k.value.Within h := by
  cases k with
  | number n => exact Number.within_of_fixed (fun ρ => Key.number.inj (hk ρ)) hh
  | _ => trivial

/-- The tables above a new one, and the new one, are there when its content is made. -/
theorem Heap.lt_reserve {path : List Address} (hpath : ∀ a ∈ path, a < h.size) :
    ∀ a ∈ h.size :: path, a < h.reserve.2.size := by
  have hsize : h.size < h.reserve.2.size := size_lt_of_reserve (.refl _)
  exact List.forall_mem_cons.2 ⟨hsize, fun a ha => (hpath a ha).trans hsize⟩

namespace Heap.Closed

theorem reserve (hh : h.Closed) : h.reserve.2.Closed := hh.alloc nofun

theorem filled {filled : Heap} (hf : filled.Closed) (hext : h.reserve.2.Extends filled) {t : Table}
    (ht : t.Within filled) :
    (filled.set h.size t).Closed ∧ (Value.table h.size).Within (filled.set h.size t) :=
  ⟨hf.set h.size ht, Nat.lt_of_lt_of_le (size_lt_of_reserve hext) (filled.grows_set _ t).size_le⟩

mutual

theorem build (t : Tree) (path : List Address) {h : Heap} (hh : h.Closed)
    (hpath : ∀ a ∈ path, a < h.size) (ht : ∀ ρ : Relocation, t.move ρ = t) :
    (Heap.build t path h).2.Closed ∧
      (Heap.build t path h).1.Within (Heap.build t path h).2 := by
  cases t with
  | number n => exact hh.mark (Number.within_of_fixed (fun ρ => Tree.number.inj (ht ρ)) hh)
  | vector v =>
    have hv (ρ : Relocation) : v.move ρ = v := Tree.vector.inj (ht ρ)
    exact hh.markVector ⟨Number.within_of_fixed (fun ρ => congrArg Vector3.x (hv ρ)) hh,
      Number.within_of_fixed (fun ρ => congrArg Vector3.y (hv ρ)) hh,
      Number.within_of_fixed (fun ρ => congrArg Vector3.z (hv ρ)) hh⟩
  | list items =>
    obtain ⟨hclosed, hvalues⟩ := buildList items (h.size :: path) hh.reserve (lt_reserve hpath)
      fun ρ => Tree.list.inj (ht ρ)
    exact filled hclosed (extends_buildList items (h.size :: path) h.reserve.2) hvalues
  | map entries =>
    obtain ⟨hclosed, hpairs⟩ := buildEntries entries (h.size :: path) hh.reserve (lt_reserve hpath)
      fun ρ => Tree.map.inj (ht ρ)
    have hentries := Dict.forall_ofList (P := fun k : Key => k.value.Within _)
      (Q := fun v : Value => v.Within _) hpairs
    exact filled hclosed (extends_buildEntries entries (h.size :: path) h.reserve.2) hentries
  | again isMap up =>
    simp only [Heap.build]
    split
    · next a ha => exact ⟨hh, hpath a (List.mem_of_getElem? ha)⟩
    · exact ⟨hh, trivial⟩
  | _ => exact ⟨hh, trivial⟩
termination_by structural t

theorem buildList (ts : List Tree) (path : List Address) {h : Heap} (hh : h.Closed)
    (hpath : ∀ a ∈ path, a < h.size) (hts : ∀ ρ : Relocation, Tree.moveList ρ ts = ts) :
    (Heap.buildList ts path h).2.Closed ∧
      ∀ v ∈ (Heap.buildList ts path h).1, v.Within (Heap.buildList ts path h).2 := by
  cases ts with
  | nil => exact ⟨hh, List.forall_mem_nil _⟩
  | cons t ts =>
    have hext := extends_build t path h
    obtain ⟨hclosed, hv⟩ := build t path hh hpath fun ρ => (List.cons.inj (hts ρ)).1
    obtain ⟨hclosed', hvs⟩ := buildList ts path hclosed
      (fun a ha => Nat.lt_of_lt_of_le (hpath a ha) hext.size_le) fun ρ => (List.cons.inj (hts ρ)).2
    exact ⟨hclosed', List.forall_mem_cons.2 ⟨hv.later (extends_buildList ts path _).grows, hvs⟩⟩
termination_by structural ts

theorem buildEntries (es : List (Key × Tree)) (path : List Address) {h : Heap} (hh : h.Closed)
    (hpath : ∀ a ∈ path, a < h.size) (hes : ∀ ρ : Relocation, Tree.moveEntries ρ es = es) :
    (Heap.buildEntries es path h).2.Closed ∧
      ∀ e ∈ (Heap.buildEntries es path h).1,
        e.1.value.Within (Heap.buildEntries es path h).2 ∧
          e.2.Within (Heap.buildEntries es path h).2 := by
  cases es with
  | nil => exact ⟨hh, List.forall_mem_nil _⟩
  | cons e es =>
    obtain ⟨k, t⟩ := e
    have hhead (ρ : Relocation) : (k.move ρ, t.move ρ) = (k, t) := (List.cons.inj (hes ρ)).1
    have hext := extends_markKey h k
    have hext' := extends_build t path (h.markKey k).2
    have hrest := (extends_buildEntries es path (Heap.build t path (h.markKey k).2).2).grows
    obtain ⟨hmarked, hk⟩ :=
      hh.markKey (Key.within_of_fixed (fun ρ => (Prod.mk.inj (hhead ρ)).1) hh)
    obtain ⟨hclosed, hv⟩ := build t path hmarked
      (fun a ha => Nat.lt_of_lt_of_le (hpath a ha) hext.size_le)
      fun ρ => (Prod.mk.inj (hhead ρ)).2
    obtain ⟨hclosed', hvs⟩ := buildEntries es path hclosed
      (fun a ha => Nat.lt_of_lt_of_le (hpath a ha) (hext.trans hext').size_le)
      fun ρ => (List.cons.inj (hes ρ)).2
    exact ⟨hclosed', List.forall_mem_cons.2
      ⟨⟨hk.later (hext'.grows.trans hrest), hv.later hrest⟩, hvs⟩⟩
termination_by structural es

end

/-- What a literal means is put into the heap with nothing left open. -/
theorem store {room : Nat} {s : String} {t : Tree} (hh : h.Closed)
    (ht : Literal.read room s = .ok t) :
    (h.store t).2.Closed ∧ (h.store t).1.Within (h.store t).2 :=
  build t [] hh nofun fun _ => Literal.read_move ht

end Heap.Closed

end NodeScript
