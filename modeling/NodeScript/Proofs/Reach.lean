import NodeScript.Proofs.Closed.Contexts
import NodeScript.Proofs.Nodes
import NodeScript.Proofs.Realms.Runs

/-!
What scripts can get hold of. Graphs that are given as data are made up of tables, from the map of
all graphs down to the configurations of nodes. Scripts hold the values in the configurations and
whatever is inside these. Where no table is both, scripts leave alone what makes up the graphs.
-/

namespace NodeScript

/-- The place of a table in graphs that are given as data. -/
inductive Place where
  /-- The map from keys to graphs. -/
  | library
  | graph
  /-- The list of a graph's nodes. -/
  | nodes
  /-- The list of a graph's parameters. -/
  | names
  | node
  | config
  /-- Anywhere else: a value that scripts may hold. -/
  | script
deriving DecidableEq, Repr

namespace Heap

/-- The value makes up the graphs at a place: it is looked at when graphs are made from the data. -/
inductive MakesUp (h : Heap) (data : Value) : Place → Value → Prop
  | library : MakesUp h data .library data
  | graph {graphs : Dict Key Value} {key : String} {w : Value} (hm : h.map? data = some graphs)
      (hw : graphs.get? (.text key) = some w) : MakesUp h data .graph w
  | nodes {v w : Value} {d : Dict Key Value} {used : String} (hv : MakesUp h data .graph v)
      (hm : h.map? v = some d) (hw : Decoder.find? Graph.nodesName d.fields = some (used, w)) :
      MakesUp h data .nodes w
  | names {v w : Value} {d : Dict Key Value} {used : String} (hv : MakesUp h data .graph v)
      (hm : h.map? v = some d)
      (hw : Decoder.find? ⟨"parameters", "parameters"⟩ d.fields = some (used, w)) :
      MakesUp h data .names w
  | node {v w : Value} {items : List Value} (hv : MakesUp h data .nodes v)
      (ha : h.array? v = some items) (hw : w ∈ items) : MakesUp h data .node w
  | config {v w : Value} {d : Dict Key Value} (hv : MakesUp h data .node v)
      (hm : h.map? v = some d) (hw : d.get? (.text "config") = some w) : MakesUp h data .config w

/-- A value that is given, or one inside of it. -/
inductive Holds (h : Heap) (given : Value → Prop) : Value → Prop
  | given {v : Value} (hv : given v) : Holds h given v
  | inside {a : Address} {v : Value} (ha : Holds h given (.table a)) (hv : v ∈ (h.get a).values) :
      Holds h given v

/-- No table that makes up the graphs is held by those who are given some values. -/
def Apart (h : Heap) (data : Value) (given : Value → Prop) : Prop :=
  ∀ p a, h.MakesUp data p (.table a) → ¬ h.Holds given (.table a)

/-- The tables that can be got hold of, also those that are still to be made. -/
def Reach (h : Heap) (given : Value → Prop) (a : Address) : Prop :=
  h.size ≤ a ∨ h.Holds given (.table a)

end Heap

variable {h h₀ : Heap} {data v : Value} {p : Place} {held : Address → Prop} {given : Value → Prop}

theorem Heap.MakesUp.within (hh : h.Closed) (hdata : data.Within h) (hv : h.MakesUp data p v) :
    v.Within h := by
  have hentry {v w : Value} {d : Dict Key Value} {k : Key} (hv : v.Within h)
      (hm : h.map? v = some d) (hw : d.get? k = some w) : w.Within h := by
    obtain ⟨e, he, rfl⟩ := Dict.exists_mem_of_get? hw
    exact hh.inherits_within.map? hv hm e he
  induction hv with
  | library => exact hdata
  | graph hm hw => exact hentry hdata hm hw
  | nodes _ hm hw ih => exact hentry ih hm (Decoder.eq_some_of_find? hw)
  | names _ hm hw ih => exact hentry ih hm (Decoder.eq_some_of_find? hw)
  | node _ ha hw ih => exact hh.inherits_within.array? ih ha _ hw
  | config _ hm hw ih => exact hentry ih hm hw

/-- What makes up the graphs is out of reach. -/
theorem Heap.Apart.not_reach (hapart : h.Apart data given) (hh : h.Closed) (hdata : data.Within h)
    {a : Address} (ha : h.MakesUp data p (.table a)) : ¬ h.Reach given a := by
  rintro (hnew | hheld)
  · exact Nat.not_lt.2 hnew (ha.within hh hdata)
  · exact hapart p a ha hheld

/-! ### The realm of scripts -/

/-- The value is no table, or one that is held. -/
def Value.Among (held : Address → Prop) (v : Value) : Prop :=
  ∀ a, v = .table a → held a

theorem Value.Among.of_ne_table (hv : ∀ a, v ≠ .table a) : v.Among held :=
  fun a ha => absurd ha (hv a)

/-- Whatever scripts have done to a heap, the tables that they do not hold are as they were, and no
other table refers to them. -/
structure Heap.Preserves (held : Address → Prop) (h₀ h : Heap) : Prop where
  bounded : ∀ a, ¬ held a → a < h.size
  kept : ∀ a, ¬ held a → h.get a = h₀.get a
  inside : ∀ a, held a → ∀ v ∈ (h.get a).values, v.Among held

/-- At the start scripts hold what they can reach. -/
theorem Heap.preserves_reach (h : Heap) (given : Value → Prop) :
    h.Preserves (h.Reach given) h where
  bounded _ ha := Nat.lt_of_not_le fun hle => ha (.inl hle)
  kept _ _ := rfl
  inside a ha v hv := by
    rintro b rfl
    obtain hnew | hheld := ha
    · rw [get_of_le hnew] at hv
      cases hv
    · exact .inr (.inside hheld hv)

namespace Heap.Preserves

variable (hh : h₀.Preserves held h)

include hh

/-- A new table is for scripts. -/
theorem fresh : held h.size := by
  by_contra hne
  exact Nat.lt_irrefl _ (hh.bounded _ hne)

theorem mark (n : Number) : h₀.Preserves held (h.mark n).2 := by
  unfold Heap.mark
  split
  · exact ⟨hh.bounded, hh.kept, hh.inside⟩
  · exact hh

theorem markKey (k : Key) : h₀.Preserves held (h.markKey k).2 := by
  cases k with
  | number n => exact hh.mark n
  | _ => exact hh

theorem alloc {t : Table} (ht : ∀ v ∈ t.values, v.Among held) :
    h₀.Preserves held (h.alloc t).2 := by
  have hext := h.extends_alloc t
  refine ⟨fun a ha => Nat.lt_of_lt_of_le (hh.bounded a ha) hext.size_le, fun a ha => ?_,
    fun a ha => ?_⟩
  · rw [hext.kept a (hh.bounded a ha), hh.kept a ha]
  · rw [get_alloc]
    split
    · exact ht
    · exact hh.inside a ha

theorem set {a : Address} (ha : held a) {t : Table}
    (ht : ∀ v ∈ t.values, v.Among held) : h₀.Preserves held (h.set a t) := by
  refine ⟨fun b hb => ?_, fun b hb => ?_, fun b hb => ?_⟩
  · rw [size_set]
    exact hh.bounded b hb
  · have hab : a ≠ b := fun heq => hb (heq ▸ ha)
    rw [← hh.kept b hb]
    simp [Heap.get, Heap.set, Array.getD_eq_getD_getElem?, hab]
  · obtain hget | hget := h.get_set_cases a b t
    · rw [hget]
      exact ht
    · rw [hget]
      exact hh.inside b hb

theorem reserve : h₀.Preserves held h.reserve.2 :=
  hh.alloc (List.forall_mem_nil _)

end Heap.Preserves

namespace Heap

mutual

theorem Preserves.build (t : Tree) (path : List Address) {h : Heap} (hh : h₀.Preserves held h)
    (hpath : ∀ a ∈ path, held a) :
    h₀.Preserves held (Heap.build t path h).2 ∧ (Heap.build t path h).1.Among held := by
  have hplace : (Value.table h.size).Among held := by
    rintro _ ⟨⟩
    exact hh.fresh
  have hpath' : ∀ a ∈ h.size :: path, held a :=
    List.forall_mem_cons.2 ⟨hh.fresh, hpath⟩
  cases t with
  | number n => exact ⟨hh.mark n, .of_ne_table nofun⟩
  | vector v => exact ⟨((hh.mark v.x).mark v.y).mark v.z, .of_ne_table nofun⟩
  | list items =>
    obtain ⟨hitems, hvalues⟩ := Preserves.buildList items (h.size :: path) hh.reserve hpath'
    exact ⟨hitems.set hh.fresh hvalues, hplace⟩
  | map entries =>
    obtain ⟨hentries, hpairs⟩ := Preserves.buildEntries entries (h.size :: path) hh.reserve hpath'
    have hvalues := Dict.forall_ofList (P := fun _ : Key => True)
      (Q := fun v : Value => v.Among held) fun e he => ⟨trivial, hpairs e he⟩
    exact ⟨hentries.set hh.fresh (List.forall_mem_map.2 fun e he => (hvalues e he).2), hplace⟩
  | again isMap up =>
    simp only [Heap.build]
    split
    · next a ha =>
      refine ⟨hh, ?_⟩
      rintro _ ⟨⟩
      exact hpath a (List.mem_of_getElem? ha)
    · exact ⟨hh, .of_ne_table nofun⟩
  | _ => exact ⟨hh, .of_ne_table nofun⟩
termination_by structural t

theorem Preserves.buildList (ts : List Tree) (path : List Address) {h : Heap}
    (hh : h₀.Preserves held h) (hpath : ∀ a ∈ path, held a) :
    h₀.Preserves held (Heap.buildList ts path h).2 ∧
      ∀ v ∈ (Heap.buildList ts path h).1, v.Among held := by
  cases ts with
  | nil => exact ⟨hh, List.forall_mem_nil _⟩
  | cons t ts =>
    obtain ⟨hfirst, hv⟩ := Preserves.build t path hh hpath
    obtain ⟨hrest, hvs⟩ := Preserves.buildList ts path hfirst hpath
    exact ⟨hrest, List.forall_mem_cons.2 ⟨hv, hvs⟩⟩
termination_by structural ts

theorem Preserves.buildEntries (es : List (Key × Tree)) (path : List Address) {h : Heap}
    (hh : h₀.Preserves held h) (hpath : ∀ a ∈ path, held a) :
    h₀.Preserves held (Heap.buildEntries es path h).2 ∧
      ∀ e ∈ (Heap.buildEntries es path h).1, e.2.Among held := by
  cases es with
  | nil => exact ⟨hh, List.forall_mem_nil _⟩
  | cons e es =>
    obtain ⟨k, t⟩ := e
    obtain ⟨hfirst, hv⟩ := Preserves.build t path (hh.markKey k) hpath
    obtain ⟨hrest, hvs⟩ := Preserves.buildEntries es path hfirst hpath
    exact ⟨hrest, List.forall_mem_cons.2 ⟨hv, hvs⟩⟩
termination_by structural es

end

end Heap

/-- Scripts deal with values among those that are held, and leave all other tables as they were. -/
def Realm.scripts (held : Address → Prop) (h₀ : Heap) : Realm where
  heap := h₀.Preserves held
  value := Value.Among held
  plain := .of_ne_table
  inside hh ha := hh.inside _ (ha _ rfl)
  alloc hh ht := by
    refine ⟨hh.alloc ht, ?_⟩
    rintro _ ⟨⟩
    exact hh.fresh
  mark n hh := hh.mark n
  store t hh := hh.build t [] (List.forall_mem_nil _)

theorem Realm.writable_scripts (held : Address → Prop) (h₀ : Heap) :
    (scripts held h₀).Writable :=
  ⟨fun hh ha ht => hh.set (ha _ rfl) ht⟩

end NodeScript
