import NodeScript.Proofs.Reach

/-!
Graphs as data take up tables of two sorts: those that make up the graphs, and those that stand as
values in configurations. Data that is stored as a tree keeps the two apart: each of its tables has
one place, and what the graphs hand to scripts is in none of the places that make up graphs.
-/

namespace NodeScript

/-- The place of what stands under a key of a map, or in a list, that has a place itself. -/
def Place.under : Place → Option Key → Place
  | .library, some (.text _) => .graph
  | .graph, some (.text s) =>
    if s = "nodes" ∨ s = "instructions" then .nodes
    else if s = "parameters" then .names
    else .script
  | .nodes, none => .node
  | .node, some (.text s) => if s = "config" then .config else .script
  | _, _ => .script

/-- The value is no table, or one at the given place. -/
def Value.At (places : Address → Place) (p : Place) (v : Value) : Prop :=
  ∀ a, v = .table a → places a = p

/-- Each entry of the table has the place that its key gives. -/
def Table.Sorted (places : Address → Place) (p : Place) : Table → Prop
  | .array items => ∀ v ∈ items, v.At places (p.under none)
  | .map d => ∀ e ∈ d.entries, e.2.At places (p.under (some e.1))

/-- The tables of the heap can have these places. -/
def Heap.Sorted (places : Address → Place) (h : Heap) : Prop :=
  ∀ a, (h.get a).Sorted places (places a)

mutual

/-- The places of the tables of a tree, in the order in which they are made. -/
def Tree.places : Tree → Place → List Place
  | .list items, p => p :: placesList items (p.under none)
  | .map entries, p => p :: placesEntries entries p
  | .nil, _ | .bool _, _ | .number _, _ | .text _, _ | .vector _, _ | .moment _, _
  | .again _ _, _ => []
termination_by structural t => t

def Tree.placesList : List Tree → Place → List Place
  | [], _ => []
  | t :: ts, p => t.places p ++ placesList ts p
termination_by structural ts => ts

def Tree.placesEntries : List (Key × Tree) → Place → List Place
  | [], _ => []
  | (k, t) :: es, p => t.places (p.under (some k)) ++ placesEntries es p
termination_by structural es => es

end

mutual

/-- Whether the tree has no table inside itself, other than where both have the same place; `above`
are the places of the tables around the tree, the innermost first. -/
def Tree.fits : Tree → Place → (above : List Place) → Bool
  | .list items, p, above => fitsList items (p.under none) (p :: above)
  | .map entries, p, above => fitsEntries entries p (p :: above)
  | .again _ up, p, above => above[up - 1]?.all (· == p)
  | .nil, _, _ | .bool _, _, _ | .number _, _, _ | .text _, _, _ | .vector _, _, _
  | .moment _, _, _ => true
termination_by structural t => t

def Tree.fitsList : List Tree → Place → (above : List Place) → Bool
  | [], _, _ => true
  | t :: ts, p, above => t.fits p above && fitsList ts p above
termination_by structural ts => ts

def Tree.fitsEntries : List (Key × Tree) → Place → (above : List Place) → Bool
  | [], _, _ => true
  | (k, t) :: es, p, above => t.fits (p.under (some k)) above && fitsEntries es p above
termination_by structural es => es

end

mutual

/-- Whether the tree has no table inside itself. -/
def Tree.isFinite : Tree → Bool
  | .list items => isFiniteList items
  | .map entries => isFiniteEntries entries
  | .again _ _ => false
  | .nil | .bool _ | .number _ | .text _ | .vector _ | .moment _ => true
termination_by structural t => t

def Tree.isFiniteList : List Tree → Bool
  | [] => true
  | t :: ts => t.isFinite && isFiniteList ts
termination_by structural ts => ts

def Tree.isFiniteEntries : List (Key × Tree) → Bool
  | [] => true
  | (_, t) :: es => t.isFinite && isFiniteEntries es
termination_by structural es => es

end

mutual

/-- Data without tables inside themselves fits at every place. -/
theorem Tree.fits_of_isFinite (t : Tree) (p : Place) (above : List Place)
    (ht : t.isFinite = true) : t.fits p above = true := by
  cases t with
  | list items => exact Tree.fitsList_of_isFinite items _ _ ht
  | map entries => exact Tree.fitsEntries_of_isFinite entries _ _ ht
  | again isMap up => cases ht
  | _ => rfl
termination_by structural t

theorem Tree.fitsList_of_isFinite (ts : List Tree) (p : Place) (above : List Place)
    (hts : isFiniteList ts = true) : fitsList ts p above = true := by
  cases ts with
  | nil => rfl
  | cons t ts =>
    obtain ⟨ht, hts⟩ := Bool.and_eq_true_iff.1 hts
    exact Bool.and_eq_true_iff.2
      ⟨Tree.fits_of_isFinite t p above ht, Tree.fitsList_of_isFinite ts p above hts⟩
termination_by structural ts

theorem Tree.fitsEntries_of_isFinite (es : List (Key × Tree)) (p : Place) (above : List Place)
    (hes : isFiniteEntries es = true) : fitsEntries es p above = true := by
  cases es with
  | nil => rfl
  | cons e es =>
    obtain ⟨k, t⟩ := e
    obtain ⟨ht, hes⟩ := Bool.and_eq_true_iff.1 hes
    exact Bool.and_eq_true_iff.2
      ⟨Tree.fits_of_isFinite t (p.under (some k)) above ht,
        Tree.fitsEntries_of_isFinite es p above hes⟩
termination_by structural es

end

variable {places : Address → Place} {h h₀ : Heap} {p : Place} {v : Value}

namespace Place

@[simp] theorem under_script (k : Option Key) : Place.script.under k = .script := by
  cases k <;> rfl

/-- Keys that a map does not tell apart give the same place. -/
theorem under_of_same {j k : Key} (h : (j == k) = true) (p : Place) :
    p.under (some j) = p.under (some k) := by
  have h : j.same k = true := h
  cases j with
  | text s =>
    cases k with
    | text t =>
      obtain rfl : s = t := by simpa [Key.same] using h
      rfl
    | _ => simp [Key.same, Key.number?] at h
  | _ =>
    cases k with
    | text t => simp [Key.same, Key.number?] at h
    | _ => cases p <;> rfl

theorem under_markKey (h : Heap) (k : Key) (p : Place) :
    p.under (some (h.markKey k).1) = p.under (some k) := by
  cases k with
  | number n => cases p <;> rfl
  | _ => rfl

end Place

theorem Value.At.of_ne_table (hv : ∀ a, v ≠ .table a) : v.At places p :=
  fun a ha => absurd ha (hv a)

/-! ### What is stored as a tree -/

/-- The tables from an address on have the places of a list. -/
def Agrees (places : Address → Place) (lo : Nat) (ps : List Place) : Prop :=
  ∀ i q, ps[i]? = some q → places (lo + i) = q

theorem Agrees.head {lo : Nat} {ps : List Place} (h : Agrees places lo (p :: ps)) :
    places lo = p :=
  h 0 p rfl

theorem Agrees.tail {lo : Nat} {ps : List Place} (h : Agrees places lo (p :: ps)) :
    Agrees places (lo + 1) ps := by
  intro i q hi
  have hplace := h (i + 1) q (by simpa using hi)
  rwa [Nat.add_assoc, Nat.add_comm 1 i]

theorem Agrees.left {lo : Nat} {ps qs : List Place} (h : Agrees places lo (ps ++ qs)) :
    Agrees places lo ps := by
  intro i q hi
  have hlt : i < ps.length := (List.getElem?_eq_some_iff.1 hi).1
  exact h i q (by rwa [List.getElem?_append_left hlt])

theorem Agrees.right {lo : Nat} {ps qs : List Place} (h : Agrees places lo (ps ++ qs)) :
    Agrees places (lo + ps.length) qs := by
  intro i q hi
  have hqs : (ps ++ qs)[ps.length + i]? = some q := by
    rw [List.getElem?_append_right (Nat.le_add_right _ _), Nat.add_sub_cancel_left]
    exact hi
  rw [Nat.add_assoc]
  exact h (ps.length + i) q hqs

/-- Entries of a dictionary are entries of the pairs that it is made from, but for the spelling of
keys. -/
theorem Dict.forall_put_of_same {κ α : Type} [BEq κ] {Q : κ → α → Prop} {k : κ} {v : α}
    {entries : List (κ × α)} (hsame : ∀ j, (j == k) = true → Q j v) (hk : Q k v)
    (h : ∀ e ∈ entries, Q e.1 e.2) : ∀ e ∈ put k v entries, Q e.1 e.2 := by
  induction entries with
  | nil => exact List.forall_mem_singleton.2 hk
  | cons e es ih =>
    obtain ⟨he, hes⟩ := List.forall_mem_cons.1 h
    unfold put
    split
    · next hj => exact List.forall_mem_cons.2 ⟨hsame _ hj, hes⟩
    · exact List.forall_mem_cons.2 ⟨he, ih hes⟩

theorem Dict.forall_ofList_of_same {κ α : Type} [BEq κ] {Q : κ → α → Prop}
    (hsame : ∀ j k v, (j == k) = true → Q k v → Q j v) {pairs : List (κ × α)}
    (h : ∀ e ∈ pairs, Q e.1 e.2) : ∀ e ∈ (ofList pairs).entries, Q e.1 e.2 := by
  have hall (d : Dict κ α) (hd : ∀ e ∈ d.entries, Q e.1 e.2) :
      ∀ e ∈ (d.insertAll pairs).entries, Q e.1 e.2 := by
    induction pairs generalizing d with
    | nil => exact hd
    | cons e es ih =>
      obtain ⟨he, hes⟩ := List.forall_mem_cons.1 h
      exact ih hes _ (forall_put_of_same (fun j hj => hsame j _ _ hj he) he hd)
  exact hall {} (List.forall_mem_nil _)

namespace Heap

theorem size_mark (h : Heap) (n : Number) : (h.mark n).2.size = h.size := by
  unfold mark
  split <;> rfl

theorem size_markKey (h : Heap) (k : Key) : (h.markKey k).2.size = h.size := by
  cases k with
  | number n => exact h.size_mark n
  | _ => rfl

theorem address_reserve (h : Heap) : h.reserve.1 = h.size := rfl

theorem size_reserve (h : Heap) : h.reserve.2.size = h.size + 1 := by
  simp [reserve, alloc, size]

/-- The tables from an address on have the places that are given. -/
def SortedFrom (places : Address → Place) (lo : Nat) (h : Heap) : Prop :=
  ∀ a : Nat, lo ≤ a → a < h.size → (h.get a).Sorted places (places a)

theorem SortedFrom.of_size_le {lo : Nat} (hsize : h.size ≤ lo) : h.SortedFrom places lo :=
  fun _ hlo ha => absurd (Nat.lt_of_lt_of_le ha hsize) (Nat.not_lt.2 hlo)

/-- What is made later is added to what is there. -/
theorem SortedFrom.extend {lo : Nat} {g : Heap} (hh : h.SortedFrom places lo)
    (hg : h.Extends g) (hrest : g.SortedFrom places h.size) : g.SortedFrom places lo := by
  intro a hlo ha
  by_cases hold : a < h.size
  · rw [hg.kept a hold]
    exact hh a hlo hold
  · exact hrest a (Nat.le_of_not_lt hold) ha

/-- A table that was made room for is filled last. -/
theorem SortedFrom.fill {filled : Heap} (hext : h.reserve.2.Extends filled)
    (hf : filled.SortedFrom places (h.size + 1)) {t : Table} (ht : t.Sorted places (places h.size)) :
    (filled.set h.size t).SortedFrom places h.size := by
  intro a hlo ha
  rw [get_set filled h.size a t (size_lt_of_reserve hext)]
  split
  · next heq => exact heq ▸ ht
  · next hne =>
    exact hf a (Nat.lt_of_le_of_ne hlo hne) (by simpa using ha)

mutual

/-- The tables of a tree are made one after the other, in the order of their places. -/
theorem build_sorted (t : Tree) (p : Place) (path : List Address) (h : Heap)
    (hfits : t.fits p (path.map places) = true) (hplaces : Agrees places h.size (t.places p)) :
    (build t path h).2.size = h.size + (t.places p).length ∧ (build t path h).1.At places p ∧
      (build t path h).2.SortedFrom places h.size := by
  cases t with
  | number n =>
    have hsize := h.size_mark n
    exact ⟨hsize, .of_ne_table nofun, .of_size_le hsize.le⟩
  | vector v =>
    have hsize : (h.markVector v).2.size = h.size := by simp [markVector, size_mark]
    exact ⟨hsize, .of_ne_table nofun, .of_size_le hsize.le⟩
  | list items =>
    have hhead : places h.size = p := hplaces.head
    obtain ⟨hsize, hvalues, hsorted⟩ := buildList_sorted items (p.under none) (h.size :: path)
      h.reserve.2 (by rw [List.map_cons, hhead]; exact hfits)
      (by rw [size_reserve]; exact hplaces.tail)
    have hext := extends_buildList items (h.size :: path) h.reserve.2
    rw [size_reserve] at hsize hsorted
    refine ⟨?_, ?_, SortedFrom.fill hext hsorted ?_⟩
    · simp only [build, Tree.places, size_set, address_reserve, hsize, List.length_cons]
      omega
    · rintro a ⟨⟩
      exact hhead
    · rw [hhead]
      exact hvalues
  | map entries =>
    have hhead : places h.size = p := hplaces.head
    obtain ⟨hsize, hpairs, hsorted⟩ := buildEntries_sorted entries p (h.size :: path)
      h.reserve.2 (by rw [List.map_cons, hhead]; exact hfits)
      (by rw [size_reserve]; exact hplaces.tail)
    have hext := extends_buildEntries entries (h.size :: path) h.reserve.2
    rw [size_reserve] at hsize hsorted
    refine ⟨?_, ?_, SortedFrom.fill hext hsorted ?_⟩
    · simp only [build, Tree.places, size_set, address_reserve, hsize, List.length_cons]
      omega
    · rintro a ⟨⟩
      exact hhead
    · rw [hhead]
      refine Dict.forall_ofList_of_same (Q := fun k v => Value.At places (p.under (some k)) v) ?_ hpairs
      intro j k v hsame hv
      rwa [Place.under_of_same hsame]
  | again isMap up =>
    refine ⟨?_, ?_, ?_⟩
    · simp only [build, Tree.places, List.length_nil]
      split <;> rfl
    · simp only [build]
      split
      · next a ha =>
        rintro _ ⟨⟩
        simpa [Tree.fits, ha] using hfits
      · exact .of_ne_table nofun
    · simp only [build]
      split <;> exact .of_size_le (Nat.le_refl _)
  | _ => exact ⟨rfl, .of_ne_table nofun, .of_size_le (Nat.le_refl _)⟩
termination_by structural t

theorem buildList_sorted (ts : List Tree) (p : Place) (path : List Address) (h : Heap)
    (hfits : Tree.fitsList ts p (path.map places) = true)
    (hplaces : Agrees places h.size (Tree.placesList ts p)) :
    (buildList ts path h).2.size = h.size + (Tree.placesList ts p).length ∧
      (∀ v ∈ (buildList ts path h).1, v.At places p) ∧
      (buildList ts path h).2.SortedFrom places h.size := by
  cases ts with
  | nil => exact ⟨rfl, List.forall_mem_nil _, .of_size_le (Nat.le_refl _)⟩
  | cons t ts =>
    obtain ⟨hfit, hfits⟩ := Bool.and_eq_true_iff.1 hfits
    obtain ⟨hsize, hv, hsorted⟩ := build_sorted t p path h hfit hplaces.left
    obtain ⟨hsize', hvs, hsorted'⟩ := buildList_sorted ts p path (build t path h).2 hfits
      (by rw [hsize]; exact hplaces.right)
    refine ⟨?_, List.forall_mem_cons.2 ⟨hv, hvs⟩,
      hsorted.extend (extends_buildList ts path _) hsorted'⟩
    simp only [buildList, Tree.placesList, hsize', hsize, List.length_append]
    omega
termination_by structural ts

theorem buildEntries_sorted (es : List (Key × Tree)) (p : Place) (path : List Address) (h : Heap)
    (hfits : Tree.fitsEntries es p (path.map places) = true)
    (hplaces : Agrees places h.size (Tree.placesEntries es p)) :
    (buildEntries es path h).2.size = h.size + (Tree.placesEntries es p).length ∧
      (∀ e ∈ (buildEntries es path h).1, e.2.At places (p.under (some e.1))) ∧
      (buildEntries es path h).2.SortedFrom places h.size := by
  cases es with
  | nil => exact ⟨rfl, List.forall_mem_nil _, .of_size_le (Nat.le_refl _)⟩
  | cons e es =>
    obtain ⟨k, t⟩ := e
    obtain ⟨hfit, hfits⟩ := Bool.and_eq_true_iff.1 hfits
    have hmark := h.size_markKey k
    obtain ⟨hsize, hv, hsorted⟩ := build_sorted t (p.under (some k)) path (h.markKey k).2 hfit
      (by rw [hmark]; exact hplaces.left)
    rw [hmark] at hsize hsorted
    obtain ⟨hsize', hvs, hsorted'⟩ := buildEntries_sorted es p path
      (build t path (h.markKey k).2).2 hfits (by rw [hsize]; exact hplaces.right)
    refine ⟨?_, List.forall_mem_cons.2 ⟨?_, hvs⟩,
      hsorted.extend (extends_buildEntries es path _) hsorted'⟩
    · simp only [buildEntries, Tree.placesEntries, hsize', hsize, List.length_append]
      omega
    · change Value.At places (p.under (some (h.markKey k).1)) _
      rwa [Place.under_markKey]
termination_by structural es

end

end Heap

/-- The places of tables, if a tree is stored from an address on. -/
def Tree.placesFrom (t : Tree) (p : Place) (lo a : Nat) : Place :=
  if lo ≤ a then ((t.places p)[a - lo]?).getD .script else .script

theorem Tree.agrees_placesFrom (t : Tree) (p : Place) (lo : Nat) :
    Agrees (t.placesFrom p lo) lo (t.places p) := by
  intro i q hi
  simp [placesFrom, hi]

/-- A tree is stored so that its tables have their places, and the tables that were there before are
for scripts. -/
theorem Heap.sorted_store (hh : h.Closed) (t : Tree) (p : Place) (hfits : t.fits p [] = true) :
    (h.store t).2.Sorted (t.placesFrom p h.size) ∧
      (h.store t).1.At (t.placesFrom p h.size) p := by
  obtain ⟨-, hv, hsorted⟩ := build_sorted t p [] h hfits (t.agrees_placesFrom p h.size)
  have hext : h.Extends (h.store t).2 := extends_build t [] h
  have hscript (a : Address) (ha : a < h.size) : t.placesFrom p h.size a = .script :=
    if_neg (Nat.not_le.2 ha)
  have hbefore {v : Value} (hv : v.Within h) : v.At (t.placesFrom p h.size) .script := by
    rintro a rfl
    exact hscript a hv
  refine ⟨fun a => ?_, hv⟩
  by_cases hold : a < h.size
  · have htable := hh.tables a hold
    rw [hext.kept a hold, hscript a hold]
    cases hget : h.get a with
    | array items =>
      rw [hget] at htable
      exact fun v hv => hbefore (htable v hv)
    | map d =>
      rw [hget] at htable
      intro e he
      rw [Place.under_script]
      exact hbefore (htable e he).2
  · by_cases ha : a < (h.store t).2.size
    · exact hsorted a (Nat.le_of_not_lt hold) ha
    · rw [get_of_le (Nat.le_of_not_lt ha)]
      exact List.forall_mem_nil _

/-! ### What has its place -/

theorem Table.Sorted.values {t : Table} (ht : t.Sorted places .script) :
    ∀ v ∈ t.values, v.At places .script := by
  cases t with
  | array items => exact ht
  | map d =>
    refine List.forall_mem_map.2 fun e he => ?_
    have hv := ht e he
    rwa [Place.under_script] at hv

namespace Heap.Sorted

variable (hs : h₀.Sorted places)

include hs

theorem entries {d : Dict Key Value} (hv : v.At places p) (hm : h₀.map? v = some d) :
    ∀ e ∈ d.entries, e.2.At places (p.under (some e.1)) := by
  obtain ⟨a, rfl, hget⟩ := Heap.map?_eq_some.1 hm
  have ht := hs a
  rwa [hv a rfl, hget] at ht

theorem get? {d : Dict Key Value} (hv : v.At places p) (hm : h₀.map? v = some d) {k : Key}
    {w : Value} (hw : d.get? k = some w) : w.At places (p.under (some k)) := by
  obtain ⟨e, he, rfl⟩ := Option.map_eq_some_iff.1 hw
  have hk : (e.1 == k) = true := by simpa using List.find?_some he
  rw [← Place.under_of_same hk]
  exact hs.entries hv hm e (List.mem_of_find?_eq_some he)

theorem items {items : List Value} (hv : v.At places p) (ha : h₀.array? v = some items) :
    ∀ w ∈ items, w.At places (p.under none) := by
  obtain ⟨a, rfl, hget⟩ := Heap.array?_eq_some.1 ha
  have ht := hs a
  rwa [hv a rfl, hget] at ht

/-- A field has its place under both of its names. -/
theorem find? {d : Dict Key Value} {q : Place} {name : FieldName} {found : String × Value}
    (heditor : p.under (some (.text name.editor)) = q)
    (hplain : p.under (some (.text name.plain)) = q) (hv : v.At places p)
    (hm : h₀.map? v = some d) (hfind : Decoder.find? name d.fields = some found) :
    found.2.At places q := by
  have hat := hs.get? hv hm (Decoder.eq_some_of_find? hfind)
  obtain hname | hname := Decoder.name_of_find? hfind
  · rwa [hname, heditor] at hat
  · rwa [hname, hplain] at hat

/-- What makes up the graphs has its place. -/
theorem makesUp_at {data : Value} (hdata : data.At places .library) (hv : h₀.MakesUp data p v) :
    v.At places p ∧ p ≠ .script := by
  induction hv with
  | library => exact ⟨hdata, by decide⟩
  | graph hm hw => exact ⟨hs.get? hdata hm hw, by decide⟩
  | nodes _ hm hw ih => exact ⟨hs.find? rfl rfl ih.1 hm hw, by decide⟩
  | names _ hm hw ih => exact ⟨hs.find? rfl rfl ih.1 hm hw, by decide⟩
  | node _ ha hw ih => exact ⟨hs.items ih.1 ha _ hw, by decide⟩
  | config _ hm hw ih => exact ⟨hs.get? ih.1 hm hw, by decide⟩

/-- Inside what scripts may hold there is only what they may hold. -/
theorem holds_at {given : Value → Prop} (hgiven : ∀ v, given v → v.At places .script)
    (hv : h₀.Holds given v) : v.At places .script := by
  induction hv with
  | given hv => exact hgiven _ hv
  | @inside a v _ hv ih =>
    have ht := hs a
    rw [ih a rfl] at ht
    exact ht.values v hv

theorem apart {data : Value} (hdata : data.At places .library) {given : Value → Prop}
    (hgiven : ∀ v, given v → v.At places .script) : h₀.Apart data given := by
  intro p a hpart hheld
  obtain ⟨hat, hne⟩ := hs.makesUp_at hdata hpart
  exact hne ((hat a rfl).symm.trans (hs.holds_at hgiven hheld a rfl))

end Heap.Sorted

/-! ### What the graphs hand to scripts -/

section

variable (hs : h₀.Sorted places)

include hs

theorem Instruction.at_script_of_ofValue {i : Instruction} (hv : v.At places .node)
    (hr : ofValue h₀ v = .ok (.valid i)) : ∀ e ∈ i.config.entries, e.2.At places .script := by
  intro e he
  cases configures_of_ofValue hr e he with
  | inline hm he hk =>
    have hat := hs.entries hv hm _ he
    rename_i k
    cases k with
    | text s =>
      have hne : s ≠ "config" := by
        rintro rfl
        exact absurd hk (by decide)
      simpa [Place.under, hne] using hat
    | _ => exact hat
  | config hm hu hd he =>
    have hplace : Value.At places .config _ := hs.get? hv hm hu
    exact hs.entries hplace hd _ he

theorem Graph.at_script_of_ofValue {graph : Graph} (hv : v.At places .graph)
    (hr : ofValue h₀ v = .ok (.valid graph)) :
    ∀ i ∈ graph.instructions, ∀ e ∈ i.config.entries, e.2.At places .script := by
  intro i hi
  obtain ⟨node, ⟨entries, used, nodes, items, hm, hused, hget, hitems, hmem⟩, hi⟩ :=
    node_of_ofValue hr i hi
  have hnodes : nodes.At places .nodes := by
    have hat := hs.get? hv hm hget
    obtain rfl | rfl := hused <;> exact hat
  exact Instruction.at_script_of_ofValue hs (hs.items hnodes hitems node hmem) hi

end

end NodeScript
