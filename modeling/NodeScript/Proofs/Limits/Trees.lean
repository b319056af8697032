import NodeScript.Proofs.Limits.Numbers
import NodeScript.Proofs.Reuse

/-!
Limits of pictures. A value can fail to be shown only by how deep its tables nest and by how long
the integers in it are, and neither grows when a tree is built up in the heap and unfolded again.
-/

namespace NodeScript

/-! ### Depth and integers -/

def Number.integers : Number → List Int
  | .int n => [n]
  | .float _ | .nan _ => []

def Vector3.integers (v : Vector3) : List Int :=
  v.x.integers ++ v.y.integers ++ v.z.integers

def Key.integers : Key → List Int
  | .number n => n.integers
  | .text _ | .bool _ | .moment _ | .nil => []

namespace Tree

mutual

/-- How many tables lie inside each other at most. -/
def depth : Tree → Nat
  | .list items => depthList items + 1
  | .map entries => depthEntries entries + 1
  | .nil | .bool _ | .number _ | .text _ | .vector _ | .moment _ | .again _ _ => 0
termination_by structural t => t

def depthList : List Tree → Nat
  | [] => 0
  | t :: ts => max t.depth (depthList ts)
termination_by structural ts => ts

def depthEntries : List (Key × Tree) → Nat
  | [] => 0
  | (_, t) :: es => max t.depth (depthEntries es)
termination_by structural es => es

end

mutual

/-- All integers in a tree, those in keys and vectors included. -/
def integers : Tree → List Int
  | .number n => n.integers
  | .vector v => v.integers
  | .list items => integersList items
  | .map entries => integersEntries entries
  | .nil | .bool _ | .text _ | .moment _ | .again _ _ => []
termination_by structural t => t

def integersList : List Tree → List Int
  | [] => []
  | t :: ts => t.integers ++ integersList ts
termination_by structural ts => ts

def integersEntries : List (Key × Tree) → List Int
  | [] => []
  | (k, t) :: es => k.integers ++ t.integers ++ integersEntries es
termination_by structural es => es

end

variable {t : Tree} {ts : List Tree} {es : List (Key × Tree)} {n : Int} {bound room : Nat}
  {f : Fault} {ns : List Int}

theorem depthList_le_iff : depthList ts ≤ bound ↔ ∀ t ∈ ts, t.depth ≤ bound := by
  induction ts with
  | nil => simp [depthList]
  | cons t ts ih => simp [depthList, ih]

theorem depthEntries_le_iff : depthEntries es ≤ bound ↔ ∀ e ∈ es, e.2.depth ≤ bound := by
  induction es with
  | nil => simp [depthEntries]
  | cons e es ih => simp [depthEntries, ih]

theorem mem_integersList : n ∈ integersList ts ↔ ∃ t ∈ ts, n ∈ t.integers := by
  induction ts with
  | nil => simp [integersList]
  | cons t ts ih => simp [integersList, ih]

theorem mem_integersEntries :
    n ∈ integersEntries es ↔ ∃ e ∈ es, n ∈ e.1.integers ∨ n ∈ e.2.integers := by
  induction es with
  | nil => simp [integersEntries]
  | cons e es ih => simp [integersEntries, ih, or_assoc]

end Tree

/-! ### Showing a tree -/

/-- Fails, if at all, by faults of some kind. -/
def FailsBy {α : Type} (P : Fault → Prop) (x : Except Fault α) : Prop :=
  ∀ f, x = .error f → P f

namespace FailsBy

variable {α β : Type} {P Q : Fault → Prop} {x : Except Fault α}

theorem ok (a : α) : FailsBy P (.ok a) := fun _ h => nomatch h

theorem error {f : Fault} (hf : P f) : FailsBy P (.error f : Except Fault α) := by
  rintro _ ⟨⟩
  exact hf

theorem bind {g : α → Except Fault β} (hx : FailsBy P x) (hg : ∀ a, FailsBy P (g a)) :
    FailsBy P (x >>= g) := by
  intro f h
  cases x with
  | ok a => exact hg a f h
  | error e =>
    cases h
    exact hx _ rfl

theorem mono (hx : FailsBy P x) (hPQ : ∀ f, P f → Q f) : FailsBy Q x :=
  fun f h => hPQ f (hx f h)

end FailsBy

/-- One of some integers has too many digits to be written. -/
inductive TooLong (ns : List Int) : Fault → Prop
  | intro {n : Int} (hn : n ∈ ns) (h : 10 ^ digitLimit ≤ n.natAbs) : TooLong ns .integerTooLong

theorem TooLong.mono {ns ms : List Int} {f : Fault} (h : TooLong ns f) (hsub : ns ⊆ ms) :
    TooLong ms f := by
  obtain ⟨hn, h⟩ := h
  exact ⟨hsub hn, h⟩

theorem Number.text_failsBy (style : FloatStyle) (a : Number) :
    FailsBy (TooLong a.integers) (a.text style) := by
  intro f h
  obtain ⟨rfl, n, rfl, hn⟩ := text_eq_error h
  exact ⟨List.mem_singleton_self n, hn⟩

namespace Vector3

variable (v : Vector3)

theorem texts_failsBy : FailsBy (TooLong v.integers) v.texts := by
  have hx := (v.x.text_failsBy .plain).mono fun f h =>
    h.mono (show v.x.integers ⊆ v.integers by simp [integers])
  have hy := (v.y.text_failsBy .plain).mono fun f h =>
    h.mono (show v.y.integers ⊆ v.integers by simp [integers])
  have hz := (v.z.text_failsBy .plain).mono fun f h =>
    h.mono (show v.z.integers ⊆ v.integers by simp [integers])
  exact hx.bind fun _ => hy.bind fun _ => hz.bind fun _ => .ok _

theorem text_failsBy : FailsBy (TooLong v.integers) v.text :=
  v.texts_failsBy.bind fun _ => .ok _

theorem display_failsBy : FailsBy (TooLong v.integers) v.display :=
  v.texts_failsBy.bind fun _ => .ok _

end Vector3

theorem Key.display_failsBy (k : Key) : FailsBy (TooLong k.integers) k.display := by
  cases k with
  | number n => exact n.text_failsBy .plain
  | _ => exact .ok _

/-- If a fault says that tables nest too deep, then they do. -/
def RightAboutDepth (room depth : Nat) (f : Fault) : Prop :=
  ∀ work, f = .tooDeep work → room < depth

theorem TooLong.rightAboutDepth {ns : List Int} {room depth : Nat} {f : Fault} (h : TooLong ns f) :
    RightAboutDepth room depth f := by
  cases h
  exact nofun

theorem RightAboutDepth.of_le {room depth depth' : Nat} {f : Fault}
    (h : RightAboutDepth room depth f) (hle : depth ≤ depth') : RightAboutDepth room depth' f :=
  fun work hf => Nat.lt_of_lt_of_le (h work hf) hle

theorem RightAboutDepth.inside {room depth : Nat} {f : Fault} (h : RightAboutDepth room depth f) :
    RightAboutDepth (room + 1) (depth + 1) f :=
  fun work hf => Nat.succ_lt_succ (h work hf)

namespace Tree

/-- Why a tree cannot be shown with so many levels of nesting. -/
inductive Unshowable (room : Nat) (t : Tree) : Fault → Prop
  | deep (work : NestedWork) (h : room < t.depth) : Unshowable room t (.tooDeep work)
  | long {f : Fault} (h : TooLong t.integers f) : Unshowable room t f

theorem Unshowable.inside {u : Tree} (h : Unshowable room t f) (hd : t.depth + 1 ≤ u.depth)
    (hn : t.integers ⊆ u.integers) : Unshowable (room + 1) u f := by
  cases h with
  | deep work h => exact .deep work (by omega)
  | long h => exact .long (h.mono hn)

theorem Unshowable.item (h : ∃ t ∈ ts, Unshowable room t f) : Unshowable (room + 1) (.list ts) f := by
  obtain ⟨t, ht, h⟩ := h
  refine h.inside ?_ fun n hn => mem_integersList.2 ⟨t, ht, hn⟩
  exact Nat.succ_le_succ (depthList_le_iff.1 (Nat.le_refl _) t ht)

/-- What is wrong with an entry of a map. -/
def Unfit (room : Nat) (e : Key × Tree) (f : Fault) : Prop :=
  TooLong e.1.integers f ∨ Unshowable room e.2 f

theorem Unshowable.entry (h : ∃ e ∈ es, Unfit room e f) : Unshowable (room + 1) (.map es) f := by
  obtain ⟨e, he, h | h⟩ := h
  · exact .long (h.mono fun n hn => mem_integersEntries.2 ⟨e, he, .inl hn⟩)
  · refine h.inside ?_ fun n hn => mem_integersEntries.2 ⟨e, he, .inr hn⟩
    exact Nat.succ_le_succ (depthEntries_le_iff.1 (Nat.le_refl _) e he)

mutual

theorem display_failsBy (t : Tree) (room : Nat) : FailsBy (Unshowable room t) (t.display room) := by
  cases t with
  | number n => exact (n.text_failsBy .plain).mono fun _ h => .long h
  | vector v => exact v.display_failsBy.mono fun _ h => .long h
  | list items =>
    cases room with
    | zero => exact .error (.deep _ (Nat.succ_pos _))
    | succ room =>
      exact ((displayList_failsBy items room).mono fun _ h => .item h).bind fun _ => .ok _
  | map entries =>
    cases room with
    | zero => exact .error (.deep _ (Nat.succ_pos _))
    | succ room =>
      exact ((displayEntries_failsBy entries room).mono fun _ h => .entry h).bind fun _ => .ok _
  | _ => exact .ok _
termination_by structural t

theorem displayList_failsBy (ts : List Tree) (room : Nat) :
    FailsBy (fun f => ∃ t ∈ ts, Unshowable room t f) (displayList ts room) := by
  cases ts with
  | nil => exact .ok _
  | cons t ts =>
    refine ((display_failsBy t room).mono fun _ h => ⟨t, List.mem_cons_self, h⟩).bind fun _ => ?_
    refine ((displayList_failsBy ts room).mono fun _ h => ?_).bind fun _ => .ok _
    obtain ⟨u, hu, h⟩ := h
    exact ⟨u, List.mem_cons_of_mem t hu, h⟩
termination_by structural ts

theorem displayEntries_failsBy (es : List (Key × Tree)) (room : Nat) :
    FailsBy (fun f => ∃ e ∈ es, Unfit room e f) (displayEntries es room) := by
  cases es with
  | nil => exact .ok _
  | cons e es =>
    obtain ⟨k, t⟩ := e
    refine (k.display_failsBy.mono fun _ h => ⟨(k, t), List.mem_cons_self, .inl h⟩).bind fun _ => ?_
    refine ((display_failsBy t room).mono fun _ h =>
      ⟨(k, t), List.mem_cons_self, .inr h⟩).bind fun _ => ?_
    refine ((displayEntries_failsBy es room).mono fun _ h => ?_).bind fun _ => .ok _
    obtain ⟨u, hu, h⟩ := h
    exact ⟨u, List.mem_cons_of_mem _ hu, h⟩
termination_by structural es

end

theorem keyJson_failsBy (k : Key) (room depth : Nat) :
    FailsBy (RightAboutDepth room depth) k.json := by
  cases k with
  | number n => exact ((n.text_failsBy .json).mono fun _ h => h.rightAboutDepth).bind fun _ => .ok _
  | moment m => exact .error nofun
  | _ => exact .ok _

mutual

theorem json_failsBy (t : Tree) (room : Nat) :
    FailsBy (RightAboutDepth room t.depth) (t.json room) := by
  cases t with
  | number n => exact (n.text_failsBy .json).mono fun _ h => h.rightAboutDepth
  | vector v => exact (v.text_failsBy.mono fun _ h => h.rightAboutDepth).bind fun _ => .ok _
  | list items =>
    cases room with
    | zero => exact .error fun _ _ => Nat.succ_pos _
    | succ room => exact ((jsonList_failsBy items room).mono fun _ h => h.inside).bind fun _ => .ok _
  | map entries =>
    cases room with
    | zero => exact .error fun _ _ => Nat.succ_pos _
    | succ room =>
      exact ((jsonEntries_failsBy entries room).mono fun _ h => h.inside).bind fun _ => .ok _
  | again isMap up => exact .error nofun
  | _ => exact .ok _
termination_by structural t

theorem jsonList_failsBy (ts : List Tree) (room : Nat) :
    FailsBy (RightAboutDepth room (depthList ts)) (jsonList ts room) := by
  cases ts with
  | nil => exact .ok _
  | cons t ts =>
    refine ((json_failsBy t room).mono fun _ h => h.of_le (Nat.le_max_left ..)).bind fun _ => ?_
    exact ((jsonList_failsBy ts room).mono fun _ h => h.of_le (Nat.le_max_right ..)).bind fun _ =>
      .ok _
termination_by structural ts

theorem jsonEntries_failsBy (es : List (Key × Tree)) (room : Nat) :
    FailsBy (RightAboutDepth room (depthEntries es)) (jsonEntries es room) := by
  cases es with
  | nil => exact .ok _
  | cons e es =>
    obtain ⟨k, t⟩ := e
    refine (keyJson_failsBy k room _).bind fun _ => ?_
    refine ((json_failsBy t room).mono fun _ h => h.of_le (Nat.le_max_left ..)).bind fun _ => ?_
    exact ((jsonEntries_failsBy es room).mono fun _ h => h.of_le (Nat.le_max_right ..)).bind fun _ =>
      .ok _
termination_by structural es

end

theorem plain_failsBy (t : Tree) (room : Nat) : FailsBy (Unshowable room t) (t.plain room) := by
  cases t with
  | text s => exact .ok _
  | vector v => exact v.text_failsBy.mono fun _ h => .long h
  | moment m => exact .ok _
  | _ => exact display_failsBy _ room

/-- A table inside itself and a moment as a key stand in the way of the serial form only. -/
theorem jsonOrDisplay_failsBy (t : Tree) (room : Nat) :
    FailsBy (Unshowable room t) (t.jsonOrDisplay room) := by
  unfold jsonOrDisplay
  split
  · exact .ok _
  · next work hjson => exact .error (.deep work (json_failsBy t room _ hjson work rfl))
  · exact display_failsBy t room

theorem scriptText_failsBy (t : Tree) (room : Nat) :
    FailsBy (Unshowable room t) (t.scriptText room) := by
  cases t with
  | nil => exact .ok _
  | bool b => exact .ok _
  | list items => exact jsonOrDisplay_failsBy _ room
  | map entries => exact jsonOrDisplay_failsBy _ room
  | _ => exact plain_failsBy _ room

end Tree

/-! ### Trees in the heap -/

theorem Dict.forall_put {κ α : Type} [BEq κ] {P : κ → Prop} {Q : α → Prop} {k : κ} {v : α}
    {entries : List (κ × α)} (hk : P k) (hv : Q v) (h : ∀ e ∈ entries, P e.1 ∧ Q e.2) :
    ∀ e ∈ put k v entries, P e.1 ∧ Q e.2 := by
  induction entries with
  | nil => simpa [put] using ⟨hk, hv⟩
  | cons e es ih =>
    obtain ⟨he, hes⟩ := List.forall_mem_cons.1 h
    unfold put
    split
    · exact List.forall_mem_cons.2 ⟨⟨he.1, hv⟩, hes⟩
    · exact List.forall_mem_cons.2 ⟨he, ih hes⟩

theorem Dict.forall_insertAll {κ α : Type} [BEq κ] {P : κ → Prop} {Q : α → Prop} {d : Dict κ α}
    {pairs : List (κ × α)} (hd : ∀ e ∈ d.entries, P e.1 ∧ Q e.2)
    (h : ∀ e ∈ pairs, P e.1 ∧ Q e.2) : ∀ e ∈ (d.insertAll pairs).entries, P e.1 ∧ Q e.2 := by
  induction pairs generalizing d with
  | nil => exact hd
  | cons p ps ih =>
    obtain ⟨hp, hps⟩ := List.forall_mem_cons.1 h
    exact ih (forall_put hp.1 hp.2 hd) hps

/-- Keys and values of a dictionary are among those that it was made from. -/
theorem Dict.forall_ofList {κ α : Type} [BEq κ] {P : κ → Prop} {Q : α → Prop}
    {pairs : List (κ × α)} (h : ∀ e ∈ pairs, P e.1 ∧ Q e.2) :
    ∀ e ∈ (ofList pairs).entries, P e.1 ∧ Q e.2 :=
  forall_insertAll nofun h

/-- A tree of no more than some depth with none but some integers. -/
structure Tree.Bounded (depth : Nat) (ns : List Int) (t : Tree) : Prop where
  depth_le : t.depth ≤ depth
  integers_sub : t.integers ⊆ ns

theorem Tree.Bounded.mono {depth depth' : Nat} {ns ns' : List Int} {t : Tree}
    (h : t.Bounded depth ns) (hd : depth ≤ depth') (hn : ns ⊆ ns') : t.Bounded depth' ns' :=
  ⟨Nat.le_trans h.depth_le hd, List.Subset.trans h.integers_sub hn⟩

namespace Heap

variable {h g : Heap}

theorem Extends.trans {k : Heap} (hg : h.Extends g) (hk : g.Extends k) : h.Extends k where
  size_le := Nat.le_trans hg.size_le hk.size_le
  marks_le := Nat.le_trans hg.marks_le hk.marks_le
  kept a ha := (hk.kept a (Nat.lt_of_lt_of_le ha hg.size_le)).trans (hg.kept a ha)

theorem get_alloc (h : Heap) (t : Table) (a : Address) :
    (h.alloc t).2.get a = if a = h.size then t else h.get a := by
  simp only [get, alloc, size, Array.getD_eq_getD_getElem?, Array.getElem?_push]
  split <;> rfl

theorem extends_alloc (h : Heap) (t : Table) : h.Extends (h.alloc t).2 where
  size_le := by simp [size, alloc]
  marks_le := Nat.le_refl _
  kept a ha := by rw [get_alloc, if_neg (Nat.ne_of_lt ha)]

theorem extends_mark (h : Heap) (n : Number) : h.Extends (h.mark n).2 := by
  unfold mark
  split
  · exact ⟨Nat.le_refl _, Nat.le_succ _, fun _ _ => rfl⟩
  · exact .refl h

theorem extends_markVector (h : Heap) (v : Vector3) : h.Extends (h.markVector v).2 :=
  ((extends_mark _ _).trans (extends_mark _ _)).trans (extends_mark _ _)

theorem extends_markKey (h : Heap) (k : Key) : h.Extends (h.markKey k).2 := by
  cases k with
  | number n => exact extends_mark h n
  | _ => exact .refl h

theorem get_set (h : Heap) (a b : Address) (t : Table) (ha : a < h.size) :
    (h.set a t).get b = if a = b then t else h.get b := by
  simp only [size] at ha
  simp only [get, set, Array.getD_eq_getD_getElem?, Array.getElem?_setIfInBounds, ha, if_true]
  split <;> rfl

theorem size_lt_of_reserve (hg : h.reserve.2.Extends g) : h.size < g.size := by
  have := hg.size_le
  simp only [reserve, alloc, size, Array.size_push] at this ⊢
  omega

/-- Content is put into a table that was made room for. -/
theorem extends_filled (h : Heap) {filled : Heap} (hf : h.reserve.2.Extends filled) (t : Table) :
    h.Extends (filled.set h.size t) := by
  have hsize := size_lt_of_reserve hf
  have hext := (extends_alloc h (.array [])).trans hf
  refine ⟨?_, hext.marks_le, fun a ha => ?_⟩
  · simpa [size, set] using hext.size_le
  · rw [get_set _ _ _ _ hsize, if_neg (Nat.ne_of_gt ha), hext.kept a ha]

mutual

theorem extends_build (t : Tree) (path : List Address) (h : Heap) :
    h.Extends (build t path h).2 := by
  cases t with
  | number n => exact extends_mark h n
  | vector v => exact extends_markVector h v
  | list items =>
    exact extends_filled h (extends_buildList items (h.size :: path) h.reserve.2) _
  | map entries =>
    exact extends_filled h (extends_buildEntries entries (h.size :: path) h.reserve.2) _
  | again isMap up =>
    simp only [build]
    split <;> exact .refl h
  | _ => exact .refl h
termination_by structural t

theorem extends_buildList (ts : List Tree) (path : List Address) (h : Heap) :
    h.Extends (buildList ts path h).2 := by
  cases ts with
  | nil => exact .refl h
  | cons t ts => exact (extends_build t path h).trans (extends_buildList ts path _)
termination_by structural ts

theorem extends_buildEntries (es : List (Key × Tree)) (path : List Address) (h : Heap) :
    h.Extends (buildEntries es path h).2 := by
  cases es with
  | nil => exact .refl h
  | cons e es =>
    obtain ⟨k, t⟩ := e
    exact ((extends_markKey h k).trans (extends_build t path _)).trans
      (extends_buildEntries es path _)
termination_by structural es

end

theorem integers_mark (h : Heap) (n : Number) : (h.mark n).1.integers ⊆ n.integers := by
  unfold mark
  split
  · exact List.nil_subset _
  · exact List.Subset.refl _

theorem integers_markVector (h : Heap) (v : Vector3) :
    (h.markVector v).1.integers ⊆ v.integers := by
  have hx := integers_mark h v.x
  have hy := integers_mark (h.mark v.x).2 v.y
  have hz := integers_mark ((h.mark v.x).2.mark v.y).2 v.z
  intro n
  simp only [markVector, Vector3.integers, List.mem_append]
  exact Or.imp (Or.imp (@hx n) (@hy n)) (@hz n)

theorem integers_markKey (h : Heap) (k : Key) : (h.markKey k).1.integers ⊆ k.integers := by
  cases k with
  | number n => exact integers_mark h n
  | _ => exact List.Subset.refl _

section Unfolding

variable {path : List Address} {a : Address} {bound : Nat} {ns : List Int}

theorem unfold_of_ne_table {v : Value} (hv : ∀ a, v ≠ .table a) (depth : Nat) :
    g.unfold depth path v = g.unfold 0 [] v := by
  cases v with
  | table a => exact absurd rfl (hv a)
  | _ => cases depth <;> rfl

/-- What is unfolded below itself is a leaf. -/
theorem unfold_again (ha : a ∈ path) (depth : Nat) :
    (g.unfold depth path (.table a)).Bounded bound ns := by
  cases depth with
  | zero => exact ⟨Nat.zero_le _, List.nil_subset _⟩
  | succ depth =>
    simp only [unfold]
    split
    · exact ⟨Nat.zero_le _, List.nil_subset _⟩
    · exact ⟨Nat.zero_le _, List.nil_subset _⟩
    · next hnone _ => simpa using List.findIdx?_eq_none_iff.1 hnone a ha
    · next hnone _ => simpa using List.findIdx?_eq_none_iff.1 hnone a ha

theorem unfold_array {items : List Value} (hget : g.get a = .array items)
    (hitems : ∀ depth, ∀ v ∈ items, (g.unfold depth (a :: path) v).Bounded bound ns) (depth : Nat) :
    (g.unfold depth path (.table a)).Bounded (bound + 1) ns := by
  cases depth with
  | zero => exact ⟨Nat.zero_le _, List.nil_subset _⟩
  | succ depth =>
    simp only [unfold, hget]
    split
    · exact ⟨Nat.zero_le _, List.nil_subset _⟩
    · exact ⟨Nat.zero_le _, List.nil_subset _⟩
    · next items' _ heq =>
      cases heq
      refine ⟨Nat.succ_le_succ (Tree.depthList_le_iff.2 ?_), fun n hn => ?_⟩
      · rintro t ht
        obtain ⟨v, hv, rfl⟩ := List.mem_map.1 ht
        exact (hitems depth v hv).depth_le
      · obtain ⟨t, ht, hn⟩ := Tree.mem_integersList.1 hn
        obtain ⟨v, hv, rfl⟩ := List.mem_map.1 ht
        exact (hitems depth v hv).integers_sub hn
    · next heq => cases heq

theorem unfold_map {entries : Dict Key Value} (hget : g.get a = .map entries)
    (hentries : ∀ depth, ∀ e ∈ entries.entries,
      e.1.integers ⊆ ns ∧ (g.unfold depth (a :: path) e.2).Bounded bound ns) (depth : Nat) :
    (g.unfold depth path (.table a)).Bounded (bound + 1) ns := by
  cases depth with
  | zero => exact ⟨Nat.zero_le _, List.nil_subset _⟩
  | succ depth =>
    simp only [unfold, hget]
    split
    · exact ⟨Nat.zero_le _, List.nil_subset _⟩
    · exact ⟨Nat.zero_le _, List.nil_subset _⟩
    · next heq => cases heq
    · next entries' _ heq =>
      cases heq
      refine ⟨Nat.succ_le_succ (Tree.depthEntries_le_iff.2 ?_), fun n hn => ?_⟩
      · rintro t ht
        obtain ⟨e, he, rfl⟩ := List.mem_map.1 ht
        exact (hentries depth e he).2.depth_le
      · obtain ⟨t, ht, hn⟩ := Tree.mem_integersEntries.1 hn
        obtain ⟨e, he, rfl⟩ := List.mem_map.1 ht
        obtain ⟨hkey, hvalue⟩ := hentries depth e he
        obtain hn | hn := hn
        · exact hkey hn
        · exact hvalue.integers_sub hn

end Unfolding

/-- A heap has the tables of another one from an address on. -/
def AgreesFrom (start : Nat) (h g : Heap) : Prop :=
  ∀ a : Nat, start ≤ a → a < h.size → g.get a = h.get a

theorem AgreesFrom.before {start : Nat} {k : Heap} (hg : AgreesFrom start k g)
    (hk : h.Extends k) : AgreesFrom start h g := fun a hstart ha =>
  (hg a hstart (Nat.lt_of_lt_of_le ha hk.size_le)).trans (hk.kept a ha)

theorem AgreesFrom.mono {start later : Nat} (hg : AgreesFrom start h g) (hle : start ≤ later) :
    AgreesFrom later h g :=
  fun a hlater => hg a (Nat.le_trans hle hlater)

theorem AgreesFrom.filled {filled : Heap} (hf : h.reserve.2.Extends filled) {t : Table}
    (hg : AgreesFrom h.size (filled.set h.size t) g) :
    g.get h.size = t ∧ AgreesFrom h.reserve.2.size filled g := by
  have hsize : h.size < filled.size := size_lt_of_reserve hf
  have hset : (filled.set h.size t).size = filled.size := by simp [size, set]
  constructor
  · rw [hg h.size (Nat.le_refl _) (hset ▸ hsize), get_set _ _ _ _ hsize, if_pos rfl]
  · intro a hstart ha
    have hlt : h.size < a := by
      have : h.reserve.2.size = h.size + 1 := by simp [reserve, alloc, size]
      omega
    rw [hg a (Nat.le_of_lt hlt) (hset ▸ ha), get_set _ _ _ _ hsize, if_neg (Nat.ne_of_lt hlt)]

mutual

/-- What was built up is unfolded again with no more depth and no other integers, whatever has
become of the rest of the heap. -/
theorem unfold_build (t : Tree) (path : List Address) (h : Heap)
    (hg : AgreesFrom h.size (build t path h).2 g) (depth : Nat) :
    (g.unfold depth path (build t path h).1).Bounded t.depth t.integers := by
  cases t with
  | number n =>
    rw [unfold_of_ne_table (by simp [build])]
    exact ⟨Nat.le_refl _, integers_mark h n⟩
  | vector v =>
    rw [unfold_of_ne_table (by simp [build])]
    exact ⟨Nat.le_refl _, integers_markVector h v⟩
  | list items =>
    obtain ⟨hget, hg⟩ := hg.filled (extends_buildList items (h.size :: path) h.reserve.2)
    exact unfold_array hget (unfold_buildList items (h.size :: path) h.reserve.2 hg) depth
  | map entries =>
    obtain ⟨hget, hg⟩ := hg.filled (extends_buildEntries entries (h.size :: path) h.reserve.2)
    refine unfold_map hget (fun depth => ?_) depth
    exact Dict.forall_ofList (P := fun k : Key => k.integers ⊆ Tree.integersEntries entries)
      (Q := fun v => (g.unfold depth (h.size :: path) v).Bounded _ _)
      (unfold_buildEntries entries (h.size :: path) h.reserve.2 hg depth)
  | again isMap up =>
    simp only [build]
    split
    · next a ha => exact unfold_again (List.mem_of_getElem? ha) depth
    · rw [unfold_of_ne_table (by simp)]
      exact ⟨Nat.le_refl _, List.Subset.refl _⟩
  | _ =>
    rw [unfold_of_ne_table (by simp [build])]
    exact ⟨Nat.le_refl _, List.Subset.refl _⟩
termination_by structural t

theorem unfold_buildList (ts : List Tree) (path : List Address) (h : Heap)
    (hg : AgreesFrom h.size (buildList ts path h).2 g) (depth : Nat) :
    ∀ v ∈ (buildList ts path h).1,
      (g.unfold depth path v).Bounded (Tree.depthList ts) (Tree.integersList ts) := by
  cases ts with
  | nil => simp [buildList]
  | cons t ts =>
    have hext := extends_buildList ts path (build t path h).2
    have hhead := unfold_build t path h (hg.before hext) depth
    have htail := unfold_buildList ts path (build t path h).2
      (hg.mono (extends_build t path h).size_le) depth
    refine List.forall_mem_cons.2 ⟨?_, fun v hv => ?_⟩
    · exact hhead.mono (Nat.le_max_left ..) (List.subset_append_left ..)
    · exact (htail v hv).mono (Nat.le_max_right ..) (List.subset_append_right ..)
termination_by structural ts

theorem unfold_buildEntries (es : List (Key × Tree)) (path : List Address) (h : Heap)
    (hg : AgreesFrom h.size (buildEntries es path h).2 g) (depth : Nat) :
    ∀ e ∈ (buildEntries es path h).1, e.1.integers ⊆ Tree.integersEntries es ∧
      (g.unfold depth path e.2).Bounded (Tree.depthEntries es) (Tree.integersEntries es) := by
  cases es with
  | nil => simp [buildEntries]
  | cons e es =>
    obtain ⟨k, t⟩ := e
    have hkey := (h.extends_markKey k).size_le
    have hext := extends_buildEntries es path (build t path (h.markKey k).2).2
    have hhead := unfold_build t path (h.markKey k).2 ((hg.before hext).mono hkey) depth
    have htail := unfold_buildEntries es path (build t path (h.markKey k).2).2
      (hg.mono (Nat.le_trans hkey (extends_build t path _).size_le)) depth
    refine List.forall_mem_cons.2 ⟨⟨?_, ?_⟩, fun e he => ⟨?_, ?_⟩⟩
    · exact List.subset_append_of_subset_left _
        (List.subset_append_of_subset_left _ (h.integers_markKey k))
    · exact hhead.mono (Nat.le_max_left ..)
        (List.subset_append_of_subset_left _ (List.subset_append_right ..))
    · exact List.subset_append_of_subset_right _ (htail e he).1
    · exact (htail e he).2.mono (Nat.le_max_right ..) (List.subset_append_right ..)
termination_by structural es

end

/-- A literal that was stored nests no deeper than what was read, in all later heaps. -/
theorem tree_store (t : Tree) (h : Heap) (hg : (h.store t).2.Extends g) :
    (g.tree (h.store t).1).Bounded t.depth t.integers :=
  unfold_build t [] h (fun a _ ha => hg.kept a ha) _

end Heap

/-! ### Later heaps -/

section

variable {ρ : Relocation}

@[simp] theorem Number.integers_move (n : Number) : (n.move ρ).integers = n.integers := by
  cases n <;> rfl

@[simp] theorem Key.integers_move (k : Key) : (k.move ρ).integers = k.integers := by
  cases k with
  | number n => exact n.integers_move
  | _ => rfl

mutual

theorem Tree.depth_move (t : Tree) : (t.move ρ).depth = t.depth := by
  cases t with
  | list items => exact congrArg (· + 1) (depthList_move items)
  | map entries => exact congrArg (· + 1) (depthEntries_move entries)
  | _ => rfl
termination_by structural t

theorem Tree.depthList_move (ts : List Tree) :
    Tree.depthList (Tree.moveList ρ ts) = Tree.depthList ts := by
  cases ts with
  | nil => rfl
  | cons t ts => simp only [Tree.moveList, Tree.depthList, depth_move t, depthList_move ts]
termination_by structural ts

theorem Tree.depthEntries_move (es : List (Key × Tree)) :
    Tree.depthEntries (Tree.moveEntries ρ es) = Tree.depthEntries es := by
  cases es with
  | nil => rfl
  | cons e es =>
    obtain ⟨k, t⟩ := e
    simp only [Tree.moveEntries, Tree.depthEntries, depth_move t, depthEntries_move es]
termination_by structural es

end

mutual

theorem Tree.integers_move (t : Tree) : (t.move ρ).integers = t.integers := by
  cases t with
  | number n => exact n.integers_move
  | vector v => simp [Tree.move, Tree.integers, Vector3.integers, Vector3.move]
  | list items => exact integersList_move items
  | map entries => exact integersEntries_move entries
  | _ => rfl
termination_by structural t

theorem Tree.integersList_move (ts : List Tree) :
    Tree.integersList (Tree.moveList ρ ts) = Tree.integersList ts := by
  cases ts with
  | nil => rfl
  | cons t ts => simp only [Tree.moveList, Tree.integersList, integers_move t, integersList_move ts]
termination_by structural ts

theorem Tree.integersEntries_move (es : List (Key × Tree)) :
    Tree.integersEntries (Tree.moveEntries ρ es) = Tree.integersEntries es := by
  cases es with
  | nil => rfl
  | cons e es =>
    obtain ⟨k, t⟩ := e
    simp only [Tree.moveEntries, Tree.integersEntries, Key.integers_move, integers_move t,
      integersEntries_move es]
termination_by structural es

end

/-- What a closed heap holds is shown in later heaps as it was. -/
theorem Heap.Closed.tree_bounded {h g : Heap} (hh : h.Closed) (hg : h.Extends g) {v : Value}
    (hv : v.Within h) : (g.tree v).Bounded (h.tree v).depth (h.tree v).integers := by
  obtain ⟨ρ, hρ, hm⟩ := hh.exists_moved hg
  have htree := hm.tree v
  rw [hv.move_eq hρ] at htree
  rw [htree]
  exact ⟨(Tree.depth_move _).le, fun n hn => by rwa [Tree.integers_move] at hn⟩

end

end NodeScript
