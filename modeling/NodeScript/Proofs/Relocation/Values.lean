import NodeScript.Schema.Field
import NodeScript.Value.Printer

/-!
Values under a relocation: the tables from some address on are moved up by an offset, and so are the
marks from some mark on. A relocation is injective, so nothing that looks at values and not at where
their tables lie can tell it.
-/

namespace NodeScript

/-- Tables and marks below a bound stay, those from it on are moved up. The first mark, which texts
can write, always stays. -/
structure Relocation where
  tables : Nat
  tableOffset : Nat
  marks : Nat
  markOffset : Nat
  marks_pos : 0 < marks

namespace Relocation

variable (ρ : Relocation)

def address (a : Nat) : Nat := if a < ρ.tables then a else a + ρ.tableOffset

def mark (m : Nat) : Nat := if m < ρ.marks then m else m + ρ.markOffset

theorem address_of_lt {a : Nat} (h : a < ρ.tables) : ρ.address a = a := if_pos h

theorem address_of_le {a : Nat} (h : ρ.tables ≤ a) : ρ.address a = a + ρ.tableOffset :=
  if_neg (Nat.not_lt.2 h)

theorem mark_of_lt {m : Nat} (h : m < ρ.marks) : ρ.mark m = m := if_pos h

theorem mark_of_le {m : Nat} (h : ρ.marks ≤ m) : ρ.mark m = m + ρ.markOffset :=
  if_neg (Nat.not_lt.2 h)

@[simp] theorem address_inj {a b : Nat} : ρ.address a = ρ.address b ↔ a = b := by
  unfold address
  split <;> split <;> omega

@[simp] theorem mark_inj {m k : Nat} : ρ.mark m = ρ.mark k ↔ m = k := by
  unfold mark
  split <;> split <;> omega

end Relocation

variable {ρ : Relocation}

/-! ### Numbers -/

namespace Number

def move (ρ : Relocation) : Number → Number
  | .int n => .int n
  | .float x => .float x
  | .nan m => .nan (ρ.mark m)

@[simp] theorem move_int (n : Int) : (Number.int n).move ρ = .int n := rfl

@[simp] theorem move_float (x : Float) : (Number.float x).move ρ = .float x := rfl

@[simp] theorem fraction?_move (n : Number) : (n.move ρ).fraction? = n.fraction? := by
  cases n <;> rfl

@[simp] theorem isUnmarked_move (n : Number) : (n.move ρ).isUnmarked = n.isUnmarked := by
  cases n <;> rfl

@[simp] theorem eqv_move (a b : Number) : (a.move ρ).eqv (b.move ρ) = a.eqv b := by
  cases a <;> cases b <;> rfl

@[simp] theorem alike_move (a b : Number) : (a.move ρ).alike (b.move ρ) = a.alike b := by
  cases a <;> cases b <;> first | rfl | exact Bool.eq_iff_iff.2 (by simp [move, alike])

@[simp] theorem alike_int_move (n : Number) (m : Int) :
    (n.move ρ).alike (.int m) = n.alike (.int m) :=
  n.alike_move (.int m)

@[simp] theorem int_alike_move (n : Number) (m : Int) :
    (Number.int m).alike (n.move ρ) = (Number.int m).alike n :=
  alike_move (.int m) n

@[simp] theorem lt_move (a b : Number) : (a.move ρ).lt (b.move ρ) = a.lt b := by
  cases a <;> cases b <;> rfl

@[simp] theorem le_move (a b : Number) : (a.move ρ).le (b.move ρ) = a.le b := by
  simp [le]

@[simp] theorem isZero_move (n : Number) : (n.move ρ).isZero = n.isZero :=
  eqv_move n (.int 0)

@[simp] theorem toFloat_move (n : Number) : (n.move ρ).toFloat = n.toFloat := by
  cases n <;> rfl

@[simp] theorem isFinite_move (n : Number) : (n.move ρ).isFinite = n.isFinite := by
  simp [isFinite]

@[simp] theorem truncate?_move (n : Number) : (n.move ρ).truncate? = n.truncate? := by
  simp [truncate?]

@[simp] theorem text_move (style : FloatStyle) (n : Number) :
    (n.move ρ).text style = n.text style := by
  cases n <;> rfl

/-- What arithmetic gives has no mark yet. -/
theorem lift_move (onInts : Int → Int → Int) (onFloats : Float → Float → Float) (a b : Number) :
    lift onInts onFloats (a.move ρ) (b.move ρ) = (lift onInts onFloats a b).map (move ρ) := by
  have hfloat (x y : Except Fault Float) :
      (do return Number.float (onFloats (← x) (← y)) : Except Fault Number).map (move ρ) =
        do return .float (onFloats (← x) (← y)) := by
    cases x <;> cases y <;> rfl
  cases a <;> cases b <;> first | rfl | exact (hfloat _ _).symm

theorem div_move (a b : Number) : (a.move ρ).div (b.move ρ) = (a.div b).map (move ρ) := by
  have hfloat (x y : Except Fault Float) :
      (do return Number.float ((← x) / (← y)) : Except Fault Number).map (move ρ) =
        do return .float ((← x) / (← y)) := by
    cases x <;> cases y <;> rfl
  cases a with
  | int n =>
    cases b with
    | int m =>
      simp only [move_int, div]
      split <;> rfl
    | _ => exact (hfloat _ _).symm
  | _ => cases b <;> exact (hfloat _ _).symm

theorem pow_move (a b : Number) : (a.move ρ).pow (b.move ρ) = (a.pow b).map (move ρ) := by
  have hzero : (b.move ρ).lt (.int 0) = b.lt (.int 0) := lt_move b (.int 0)
  simp only [pow, isZero_move, hzero, toFloat_move]
  split
  · rfl
  · split
    · split
      · rfl
      · split
        · rfl
        · -- Only two integers may give an integer again, and those are not moved.
          cases a with
          | int n =>
            cases b with
            | int m =>
              simp only [move_int]
              split <;> first | rfl | (split <;> rfl)
            | _ => rfl
          | _ => rfl
    · rfl

/-- Numbers that are read have no mark. -/
theorem ofText?_move (s : String) : (ofText? s).map (move ρ) = ofText? s := by
  unfold ofText?
  dsimp only
  split
  · simp [Function.comp_def]
  · split
    · rfl
    · simp [Function.comp_def]

theorem ofTextIn?_move (base : Int) (s : String) :
    (ofTextIn? base s).map (move ρ) = ofTextIn? base s := by
  unfold ofTextIn?
  split
  · rfl
  · simp [Function.comp_def]

end Number

/-! ### Vectors, keys and values -/

def Vector3.move (ρ : Relocation) (v : Vector3) : Vector3 :=
  ⟨v.x.move ρ, v.y.move ρ, v.z.move ρ⟩

@[simp] theorem Vector3.same_move (v w : Vector3) : (v.move ρ).same (w.move ρ) = v.same w := by
  simp [Vector3.same, Vector3.move]

@[simp] theorem Vector3.texts_move (v : Vector3) : (v.move ρ).texts = v.texts := by
  simp [Vector3.texts, Vector3.move]

@[simp] theorem Vector3.text_move (v : Vector3) : (v.move ρ).text = v.text := by
  simp [Vector3.text]

@[simp] theorem Vector3.display_move (v : Vector3) : (v.move ρ).display = v.display := by
  simp [Vector3.display]

namespace Key

def move (ρ : Relocation) : Key → Key
  | .number n => .number (n.move ρ)
  | k => k

@[simp] theorem move_text (s : String) : (Key.text s).move ρ = .text s := rfl

theorem same_move (k l : Key) : (k.move ρ).same (l.move ρ) = k.same l := by
  cases k <;> cases l <;> simp [same, move, number?]

@[simp] theorem beq_move (k l : Key) : (k.move ρ == l.move ρ) = (k == l) :=
  same_move k l

@[simp] theorem display_move (k : Key) : (k.move ρ).display = k.display := by
  cases k <;> simp [move, display]

@[simp] theorem plain_move (k : Key) : (k.move ρ).plain = k.plain := by
  cases k <;> simp [move, plain, display]

@[simp] theorem json_move (k : Key) : (k.move ρ).json = k.json := by
  cases k <;> simp [move, json]

end Key

namespace Value

def move (ρ : Relocation) : Value → Value
  | .nil => .nil
  | .bool b => .bool b
  | .number n => .number (n.move ρ)
  | .text s => .text s
  | .vector v => .vector (v.move ρ)
  | .moment m => .moment m
  | .table a => .table (ρ.address a)

@[simp] theorem move_nil : Value.nil.move ρ = .nil := rfl

@[simp] theorem move_bool (b : Bool) : (Value.bool b).move ρ = .bool b := rfl

@[simp] theorem move_number (n : Number) : (Value.number n).move ρ = .number (n.move ρ) := rfl

@[simp] theorem move_int (n : Int) : (Value.int n).move ρ = .int n := rfl

@[simp] theorem move_text (s : String) : (Value.text s).move ρ = .text s := rfl

@[simp] theorem move_table (a : Address) : (Value.table a).move ρ = .table (ρ.address a) := rfl

@[simp] theorem move_key (k : Key) : (k.move ρ).value = k.value.move ρ := by
  cases k <;> rfl

theorem move_ofOption (v : Option Value) :
    Value.ofOption (v.map (move ρ)) = (Value.ofOption v).move ρ := by
  cases v <;> rfl

@[simp] theorem move_eq_nil {v : Value} : v.move ρ = .nil ↔ v = .nil := by
  cases v <;> simp [move]

@[simp] theorem type_move (v : Value) : (v.move ρ).type = v.type := by
  cases v <;> rfl

@[simp] theorem truthy_move (v : Value) : (v.move ρ).truthy = v.truthy := by
  cases v <;> rfl

theorem toNumber?_move (v : Value) : (v.move ρ).toNumber? = v.toNumber?.map (Number.move ρ) := by
  cases v with
  | text s => exact (Number.ofText?_move s).symm
  | _ => rfl

theorem toNumberIn?_move (base : Int) (v : Value) :
    (v.move ρ).toNumberIn? base = (v.toNumberIn? base).map (Number.move ρ) := by
  cases v with
  | text s => exact (Number.ofTextIn?_move base s).symm
  | _ => rfl

end Value

/-! ### Dictionaries and tables -/

namespace Dict

variable {κ α β : Type}

/-- Changes the keys and the values. -/
def mapBoth (f : κ → κ) (g : α → β) (d : Dict κ α) : Dict κ β :=
  ⟨d.entries.map fun (k, v) => (f k, g v)⟩

@[simp] theorem entries_mapBoth (f : κ → κ) (g : α → β) (d : Dict κ α) :
    (d.mapBoth f g).entries = d.entries.map fun (k, v) => (f k, g v) := rfl

@[simp] theorem size_mapBoth (f : κ → κ) (g : α → β) (d : Dict κ α) :
    (d.mapBoth f g).size = d.size := by
  simp [size]

@[simp] theorem isEmpty_mapBoth (f : κ → κ) (g : α → β) (d : Dict κ α) :
    (d.mapBoth f g).isEmpty = d.isEmpty := by
  simp [isEmpty]

variable [BEq κ] {f : κ → κ} (hf : ∀ k l, (f k == f l) = (k == l)) (g : α → β)

include hf

theorem get?_mapBoth (d : Dict κ α) (k : κ) :
    (d.mapBoth f g).get? (f k) = (d.get? k).map g := by
  simp only [get?, mapBoth, List.find?_map, Option.map_map]
  simp [Function.comp_def, hf]

theorem contains_mapBoth (d : Dict κ α) (k : κ) :
    (d.mapBoth f g).contains (f k) = d.contains k := by
  simp [contains, mapBoth, List.any_map, Function.comp_def, hf]

theorem put_mapBoth (k : κ) (v : α) (entries : List (κ × α)) :
    put (f k) (g v) (entries.map fun (k, v) => (f k, g v)) =
      (put k v entries).map fun (k, v) => (f k, g v) := by
  induction entries with
  | nil => rfl
  | cons e es ih =>
    simp only [List.map_cons, put, hf, ih]
    split <;> rfl

theorem insert_mapBoth (d : Dict κ α) (k : κ) (v : α) :
    (d.mapBoth f g).insert (f k) (g v) = (d.insert k v).mapBoth f g := by
  simp only [insert, mapBoth, put_mapBoth hf]

theorem insertAll_mapBoth (d : Dict κ α) (pairs : List (κ × α)) :
    (d.mapBoth f g).insertAll (pairs.map fun (k, v) => (f k, g v)) =
      (d.insertAll pairs).mapBoth f g := by
  induction pairs generalizing d with
  | nil => rfl
  | cons p ps ih =>
    simp only [insertAll, List.map_cons, List.foldl_cons, insert_mapBoth hf] at ih ⊢
    exact ih _

theorem ofList_mapBoth (pairs : List (κ × α)) :
    ofList (pairs.map fun (k, v) => (f k, g v)) = (ofList pairs).mapBoth f g :=
  insertAll_mapBoth hf g {} pairs

end Dict

/-- A map with text keys, as configurations and variables are. -/
abbrev Dict.moveValues (ρ : Relocation) (d : Dict String Value) : Dict String Value :=
  d.mapBoth id (Value.move ρ)

/-- The entries of a table that is a map. -/
abbrev Dict.move (ρ : Relocation) (d : Dict Key Value) : Dict Key Value :=
  d.mapBoth (Key.move ρ) (Value.move ρ)

theorem Dict.get?_moveValues (d : Dict String Value) (name : String) :
    (d.moveValues ρ).get? name = (d.get? name).map (Value.move ρ) :=
  get?_mapBoth (fun _ _ => rfl) _ d name

theorem Dict.get?_move (d : Dict Key Value) (k : Key) :
    (d.move ρ).get? (k.move ρ) = (d.get? k).map (Value.move ρ) :=
  get?_mapBoth Key.beq_move _ d k

theorem Dict.fields_move (d : Dict Key Value) (name : String) :
    (d.move ρ).fields name = (d.fields name).map (Value.move ρ) :=
  d.get?_move (.text name)

namespace Table

def move (ρ : Relocation) : Table → Table
  | .array items => .array (items.map (Value.move ρ))
  | .map entries => .map (entries.move ρ)

end Table

/-! ### Heaps -/

/-- The second heap is the first after a relocation, with other tables in the gap. -/
structure Heap.Moved (ρ : Relocation) (h h' : Heap) : Prop where
  tables_le : ρ.tables ≤ h.size
  size_eq : h'.size = h.size + ρ.tableOffset
  marks_le : ρ.marks ≤ h.nextMark
  nextMark_eq : h'.nextMark = h.nextMark + ρ.markOffset
  get_eq : ∀ a, h'.get (ρ.address a) = (h.get a).move ρ

namespace Heap.Moved

variable {h h' : Heap} (hm : Heap.Moved ρ h h')

include hm

theorem array? (v : Value) : h'.array? (v.move ρ) = (h.array? v).map (List.map (Value.move ρ)) := by
  cases v with
  | table a =>
    simp only [Heap.array?, Value.move_table, hm.get_eq]
    cases h.get a <;> rfl
  | _ => rfl

theorem map? (v : Value) : h'.map? (v.move ρ) = (h.map? v).map (Dict.move ρ) := by
  cases v with
  | table a =>
    simp only [Heap.map?, Value.move_table, hm.get_eq]
    cases h.get a <;> rfl
  | _ => rfl

theorem kindName (v : Value) : h'.kindName (v.move ρ) = h.kindName v := by
  cases v with
  | table a =>
    simp only [Heap.kindName, Value.move_table, hm.get_eq]
    cases h.get a <;> rfl
  | number n => cases n <;> rfl
  | _ => rfl

theorem fullKindName (v : Value) : h'.fullKindName (v.move ρ) = h.fullKindName v := by
  cases v with
  | number n => exact hm.kindName (.number n)
  | table a => exact hm.kindName (.table a)
  | _ => rfl

theorem alloc (t : Table) :
    (h'.alloc (t.move ρ)).1 = ρ.address (h.alloc t).1 ∧
      Heap.Moved ρ (h.alloc t).2 (h'.alloc (t.move ρ)).2 := by
  have hsize : ρ.address h.size = h'.size := by rw [ρ.address_of_le hm.tables_le, hm.size_eq]
  refine ⟨hsize.symm, ?_, ?_, hm.marks_le, hm.nextMark_eq, fun a => ?_⟩
  · exact Nat.le_trans hm.tables_le (by simp [Heap.size, Heap.alloc])
  · have := hm.size_eq
    simp only [Heap.size, Heap.alloc, Array.size_push] at this ⊢
    omega
  · have hget := hm.get_eq a
    by_cases ha : a = h.size
    · subst ha
      rw [hsize]
      simp [Heap.get, Heap.alloc, Heap.size]
    · have ha' : ρ.address a ≠ h'.size := by rwa [← hsize, Ne, ρ.address_inj]
      simp only [Heap.get, Heap.alloc, Heap.size] at ha ha' hget ⊢
      simpa [Array.getD_eq_getD_getElem?, Array.getElem?_push, ha, ha'] using hget

theorem set (a : Nat) (t : Table) :
    Heap.Moved ρ (h.set a t) (h'.set (ρ.address a) (t.move ρ)) := by
  have hin : a < h.size ↔ ρ.address a < h'.size := by
    have := hm.tables_le
    have := hm.size_eq
    unfold Relocation.address
    split <;> omega
  refine ⟨?_, ?_, hm.marks_le, hm.nextMark_eq, fun b => ?_⟩
  · simpa [Heap.size, Heap.set] using hm.tables_le
  · simpa [Heap.size, Heap.set] using hm.size_eq
  · have hget := hm.get_eq b
    simp only [Heap.get, Heap.set, Heap.size] at hin hget ⊢
    simp only [Array.getD_eq_getD_getElem?, Array.getElem?_setIfInBounds, ρ.address_inj] at hget ⊢
    by_cases hab : a = b
    · subst hab
      by_cases ha : a < h.tables.size
      · simp [ha, hin.1 ha]
      · simp [ha, mt hin.2 ha, default, Table.move]
    · simpa [hab] using hget

theorem mark (n : Number) :
    (h'.mark (n.move ρ)).1 = (h.mark n).1.move ρ ∧
      Heap.Moved ρ (h.mark n).2 (h'.mark (n.move ρ)).2 := by
  simp only [Heap.mark, Number.isUnmarked_move]
  split
  · have hnext : ρ.mark h.nextMark = h'.nextMark := by
      rw [ρ.mark_of_le hm.marks_le, hm.nextMark_eq]
    refine ⟨by simp [Number.move, hnext], hm.tables_le, hm.size_eq, ?_, ?_, hm.get_eq⟩
    · exact Nat.le_succ_of_le hm.marks_le
    · have := hm.nextMark_eq
      dsimp only
      omega
  · exact ⟨rfl, hm⟩

theorem markVector (v : Vector3) :
    (h'.markVector (v.move ρ)).1 = (h.markVector v).1.move ρ ∧
      Heap.Moved ρ (h.markVector v).2 (h'.markVector (v.move ρ)).2 := by
  obtain ⟨hx, hmx⟩ := hm.mark v.x
  obtain ⟨hy, hmy⟩ := hmx.mark v.y
  obtain ⟨hz, hmz⟩ := hmy.mark v.z
  exact ⟨by simp [Heap.markVector, Vector3.move, hx, hy, hz], hmz⟩

theorem markKey (k : Key) :
    (h'.markKey (k.move ρ)).1 = (h.markKey k).1.move ρ ∧
      Heap.Moved ρ (h.markKey k).2 (h'.markKey (k.move ρ)).2 := by
  cases k with
  | number n =>
    obtain ⟨hn, hmn⟩ := hm.mark n
    exact ⟨by simp [Heap.markKey, Key.move, hn], hmn⟩
  | _ => exact ⟨rfl, hm⟩

/-! ### Comparisons -/

omit hm in
theorem allSame_move {same same' : Value → Value → Except Fault Bool}
    (hs : ∀ v w, same' (v.move ρ) (w.move ρ) = same v w) (vs ws : List Value) :
    Heap.allSame same' (vs.map (Value.move ρ)) (ws.map (Value.move ρ)) =
      Heap.allSame same vs ws := by
  induction vs generalizing ws with
  | nil => cases ws <;> rfl
  | cons v vs ih =>
    cases ws with
    | nil => rfl
    | cons w ws => simp only [List.map_cons, Heap.allSame, hs, ih]

omit hm in
theorem allMatched_move {same same' : Value → Value → Except Fault Bool}
    (hs : ∀ v w, same' (v.move ρ) (w.move ρ) = same v w) (other : Dict Key Value)
    (entries : List (Key × Value)) :
    Heap.allMatched same' (other.move ρ) (entries.map fun (k, v) => (k.move ρ, v.move ρ)) =
      Heap.allMatched same other entries := by
  induction entries with
  | nil => rfl
  | cons e es ih =>
    simp only [List.map_cons, Heap.allMatched, Dict.get?_move]
    cases other.get? e.1 with
    | none => rfl
    | some w => simp only [Option.map_some, hs, ih]

omit hm in
/-- Two values that are not both tables are compared without the heap. -/
theorem scalar_same {v w : Value} (room : Nat) (hvw : ¬ ∃ a b, v = .table a ∧ w = .table b) :
    h'.same room (v.move ρ) (w.move ρ) = h.same room v w := by
  cases v <;> cases w <;> simp_all [Heap.same, Value.move, Value.number?]

theorem same (room : Nat) (v w : Value) :
    h'.same room (v.move ρ) (w.move ρ) = h.same room v w := by
  induction room generalizing v w with
  | zero =>
    by_cases hvw : ∃ a b, v = .table a ∧ w = .table b
    · obtain ⟨a, b, rfl, rfl⟩ := hvw
      simp only [Value.move_table, Heap.same, ρ.address_inj]
    · exact scalar_same 0 hvw
  | succ room ih =>
    by_cases hvw : ∃ a b, v = .table a ∧ w = .table b
    · obtain ⟨a, b, rfl, rfl⟩ := hvw
      simp only [Value.move_table, Heap.same, ρ.address_inj, hm.get_eq]
      cases h.get a <;> cases h.get b <;>
        simp [Table.move, allSame_move ih, allMatched_move ih]
    · exact scalar_same (room + 1) hvw

theorem equal (room : Nat) (v w : Value) :
    h'.equal room (v.move ρ) (w.move ρ) = h.equal room v w := by
  by_cases hvw : ∃ n m, v = .number n ∧ w = .number m
  · obtain ⟨n, m, rfl, rfl⟩ := hvw
    simp [Heap.equal]
  · have hsame := hm.same room v w
    cases v <;> cases w <;> simp_all [Heap.equal, Value.type, Value.move]

theorem holds (room : Nat) (lhs : Value) (op : Comparison) (rhs : Value) :
    op.holds h' room (lhs.move ρ) (rhs.move ρ) = op.holds h room lhs rhs := by
  have hordered (test : Number → Number → Bool)
      (ht : ∀ n m : Number, test (n.move ρ) (m.move ρ) = test n m) :
      Comparison.ordered test (lhs.move ρ) (rhs.move ρ) = Comparison.ordered test lhs rhs := by
    simp only [Comparison.ordered, Value.toNumber?_move]
    cases lhs.toNumber? <;> cases rhs.toNumber? <;> simp [ht]
  have hnil : (lhs.move ρ == .nil) = (lhs == .nil) := Bool.eq_iff_iff.2 (by simp)
  cases op with
  | equal => exact hm.equal room lhs rhs
  | notEqual => simp only [Comparison.holds, hm.equal]
  | isNil => simp only [Comparison.holds, hnil]
  | isNotNil => simp only [Comparison.holds, bne, hnil]
  | greater => exact congrArg Except.ok (hordered _ fun n m => m.lt_move n)
  | less => exact congrArg Except.ok (hordered _ fun n m => n.lt_move m)
  | greaterOrEqual => exact congrArg Except.ok (hordered _ fun n m => m.le_move n)
  | lessOrEqual => exact congrArg Except.ok (hordered _ fun n m => n.le_move m)
  | isTrue | isFalse => simp only [Comparison.holds, Value.truthy_move]
  | unknown name => rfl

end Heap.Moved

end NodeScript
