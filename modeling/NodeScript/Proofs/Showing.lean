import NodeScript.Proofs.Limits.Trees

/-!
What can be shown. A tree is displayed exactly if its tables nest no deeper than there is room and its
integers have no more digits than may be written. It has a serial form exactly if besides no table in
it lies inside itself and no key in it is a moment.
-/

namespace NodeScript

/-! ### Results -/

section Results

variable {α β : Type}

theorem exists_ok_bind {x : Except Fault α} {g : α → Except Fault β} :
    (∃ b, x >>= g = .ok b) ↔ ∃ a, x = .ok a ∧ ∃ b, g a = .ok b := by
  cases x with
  | error f => simp [bind, Except.bind]
  | ok a => simp [bind, Except.bind]

theorem exists_ok_pure (a : α) : (∃ b, (pure a : Except Fault α) = .ok b) ↔ True :=
  iff_true_intro ⟨a, rfl⟩

end Results

/-! ### Numbers, vectors and keys -/

/-- Integers with no more digits than may be written. -/
def AllShort (ns : List Int) : Prop :=
  ∀ n ∈ ns, n.natAbs < 10 ^ digitLimit

theorem allShort_nil : AllShort [] := nofun

theorem allShort_append {ns ms : List Int} : AllShort (ns ++ ms) ↔ AllShort ns ∧ AllShort ms :=
  List.forall_mem_append

theorem Number.integerText_isOk_iff (n : Int) :
    (∃ s, integerText n = .ok s) ↔ n.natAbs < 10 ^ digitLimit := by
  constructor
  · rintro ⟨s, hs⟩
    by_contra hlong
    unfold integerText at hs
    split at hs
    · cases hs
    · dsimp only at hs
      split at hs
      · cases hs
      · next hdigits =>
        exact hlong ((Nat.length_toDigits_le_iff (by decide) (by decide)).1 (Nat.le_of_not_lt hdigits))
  · intro hshort
    cases hs : integerText n with
    | ok s => exact ⟨s, rfl⟩
    | error f => exact absurd (integerText_eq_error hs).2 (Nat.not_le_of_lt hshort)

theorem Number.text_isOk_iff (style : FloatStyle) (a : Number) :
    (∃ s, a.text style = .ok s) ↔ AllShort a.integers := by
  cases a with
  | int n =>
    rw [show AllShort (Number.int n).integers ↔ n.natAbs < 10 ^ digitLimit from
      List.forall_mem_singleton]
    exact integerText_isOk_iff n
  | float x => exact iff_of_true ⟨_, rfl⟩ allShort_nil
  | nan mark => exact iff_of_true ⟨_, rfl⟩ allShort_nil

namespace Vector3

variable (v : Vector3)

theorem texts_isOk_iff : (∃ s, v.texts = .ok s) ↔ AllShort v.integers := by
  simp only [texts, exists_ok_bind, exists_ok_pure, and_true, exists_and_right,
    Number.text_isOk_iff, integers, allShort_append, and_assoc]

theorem text_isOk_iff : (∃ s, v.text = .ok s) ↔ AllShort v.integers := by
  simp only [text, exists_ok_bind, exists_ok_pure, and_true, texts_isOk_iff]

theorem display_isOk_iff : (∃ s, v.display = .ok s) ↔ AllShort v.integers := by
  simp only [display, exists_ok_bind, exists_ok_pure, and_true, texts_isOk_iff]

end Vector3

namespace Key

def isMoment : Key → Bool
  | .moment _ => true
  | .text _ | .number _ | .bool _ | .nil => false

variable (k : Key)

theorem display_isOk_iff : (∃ s, k.display = .ok s) ↔ AllShort k.integers := by
  cases k with
  | number n => exact n.text_isOk_iff .plain
  | _ => exact iff_of_true ⟨_, rfl⟩ allShort_nil

theorem json_isOk_iff : (∃ s, k.json = .ok s) ↔ AllShort k.integers ∧ k.isMoment = false := by
  cases k with
  | number n =>
    simp only [json, exists_ok_bind, exists_ok_pure, and_true, n.text_isOk_iff, integers, isMoment]
  | moment m => simp [json, isMoment]
  | _ => exact iff_of_true ⟨_, rfl⟩ ⟨allShort_nil, rfl⟩

end Key

/-! ### Trees -/

namespace Tree

variable {t : Tree} {ts : List Tree} {es : List (Key × Tree)} {room : Nat}

/-- Can be shown with so many levels of nesting. -/
structure Showable (room : Nat) (t : Tree) : Prop where
  depth_le : t.depth ≤ room
  short : AllShort t.integers

theorem Showable.of_le {room' : Nat} (h : t.Showable room) (hle : room ≤ room') : t.Showable room' :=
  ⟨h.depth_le.trans hle, h.short⟩

theorem not_showable_list_zero : ¬ (Tree.list ts).Showable 0 :=
  fun h => Nat.not_succ_le_zero _ h.depth_le

theorem not_showable_map_zero : ¬ (Tree.map es).Showable 0 :=
  fun h => Nat.not_succ_le_zero _ h.depth_le

theorem showable_list_iff : (Tree.list ts).Showable (room + 1) ↔ ∀ t ∈ ts, t.Showable room := by
  constructor
  · intro h t ht
    refine ⟨depthList_le_iff.1 (Nat.le_of_succ_le_succ h.depth_le) t ht, fun n hn => ?_⟩
    exact h.short n (mem_integersList.2 ⟨t, ht, hn⟩)
  · intro h
    refine ⟨Nat.succ_le_succ (depthList_le_iff.2 fun t ht => (h t ht).depth_le), fun n hn => ?_⟩
    obtain ⟨t, ht, hn⟩ := mem_integersList.1 hn
    exact (h t ht).short n hn

theorem showable_map_iff : (Tree.map es).Showable (room + 1) ↔
    ∀ e ∈ es, AllShort e.1.integers ∧ e.2.Showable room := by
  constructor
  · intro h e he
    refine ⟨fun n hn => h.short n (mem_integersEntries.2 ⟨e, he, .inl hn⟩),
      depthEntries_le_iff.1 (Nat.le_of_succ_le_succ h.depth_le) e he, fun n hn => ?_⟩
    exact h.short n (mem_integersEntries.2 ⟨e, he, .inr hn⟩)
  · intro h
    refine ⟨Nat.succ_le_succ (depthEntries_le_iff.2 fun e he => (h e he).2.depth_le), fun n hn => ?_⟩
    obtain ⟨e, he, hn | hn⟩ := mem_integersEntries.1 hn
    · exact (h e he).1 n hn
    · exact (h e he).2.short n hn

theorem showable_number_iff {n : Number} : (Tree.number n).Showable room ↔ AllShort n.integers :=
  ⟨fun h => h.short, fun h => ⟨Nat.zero_le _, h⟩⟩

theorem showable_vector_iff {v : Vector3} : (Tree.vector v).Showable room ↔ AllShort v.integers :=
  ⟨fun h => h.short, fun h => ⟨Nat.zero_le _, h⟩⟩

/-- A leaf without an integer. -/
theorem showable_of_empty (hd : t.depth = 0) (hn : t.integers = []) : t.Showable room :=
  ⟨hd ▸ Nat.zero_le _, hn ▸ allShort_nil⟩

mutual

theorem display_isOk_iff (t : Tree) (room : Nat) :
    (∃ s, t.display room = .ok s) ↔ t.Showable room := by
  cases t with
  | number n => exact (n.text_isOk_iff .plain).trans showable_number_iff.symm
  | vector v => exact v.display_isOk_iff.trans showable_vector_iff.symm
  | list items =>
    cases room with
    | zero => exact iff_of_false nofun not_showable_list_zero
    | succ room =>
      simp only [display, exists_ok_bind, exists_ok_pure, and_true, showable_list_iff]
      exact displayList_isOk_iff items room
  | map entries =>
    cases room with
    | zero => exact iff_of_false nofun not_showable_map_zero
    | succ room =>
      simp only [display, exists_ok_bind, exists_ok_pure, and_true, showable_map_iff]
      exact displayEntries_isOk_iff entries room
  | _ => exact iff_of_true ⟨_, rfl⟩ (showable_of_empty rfl rfl)
termination_by structural t

theorem displayList_isOk_iff (ts : List Tree) (room : Nat) :
    (∃ s, displayList ts room = .ok s) ↔ ∀ t ∈ ts, t.Showable room := by
  cases ts with
  | nil => exact iff_of_true ⟨_, rfl⟩ nofun
  | cons t ts =>
    simp only [displayList, exists_ok_bind, exists_ok_pure, and_true, exists_and_right,
      List.forall_mem_cons]
    exact and_congr (display_isOk_iff t room) (displayList_isOk_iff ts room)
termination_by structural ts

theorem displayEntries_isOk_iff (es : List (Key × Tree)) (room : Nat) :
    (∃ s, displayEntries es room = .ok s) ↔
      ∀ e ∈ es, AllShort e.1.integers ∧ e.2.Showable room := by
  cases es with
  | nil => exact iff_of_true ⟨_, rfl⟩ nofun
  | cons e es =>
    obtain ⟨k, t⟩ := e
    simp only [displayEntries, exists_ok_bind, exists_ok_pure, and_true, exists_and_right,
      List.forall_mem_cons, k.display_isOk_iff, and_assoc]
    exact and_congr_right' (and_congr (display_isOk_iff t room) (displayEntries_isOk_iff es room))
termination_by structural es

end

mutual

/-- No table lies inside itself, and no key is a moment. -/
def isSerial : Tree → Bool
  | .list items => isSerialList items
  | .map entries => isSerialEntries entries
  | .again _ _ => false
  | .nil | .bool _ | .number _ | .text _ | .vector _ | .moment _ => true
termination_by structural t => t

def isSerialList : List Tree → Bool
  | [] => true
  | t :: ts => t.isSerial && isSerialList ts
termination_by structural ts => ts

def isSerialEntries : List (Key × Tree) → Bool
  | [] => true
  | (k, t) :: es => !k.isMoment && t.isSerial && isSerialEntries es
termination_by structural es => es

end

theorem isSerialList_iff : isSerialList ts = true ↔ ∀ t ∈ ts, t.isSerial = true := by
  induction ts with
  | nil => exact iff_of_true rfl nofun
  | cons t ts ih => simp only [isSerialList, Bool.and_eq_true, ih, List.forall_mem_cons]

theorem isSerialEntries_iff :
    isSerialEntries es = true ↔ ∀ e ∈ es, e.1.isMoment = false ∧ e.2.isSerial = true := by
  induction es with
  | nil => exact iff_of_true rfl nofun
  | cons e es ih =>
    simp only [isSerialEntries, Bool.and_eq_true, Bool.not_eq_true', ih, List.forall_mem_cons]

/-- Can be written in serial form with so many levels of nesting. -/
structure Writable (room : Nat) (t : Tree) : Prop where
  showable : t.Showable room
  serial : t.isSerial = true

theorem writable_iff_of_isSerial (h : t.isSerial = true) : t.Writable room ↔ t.Showable room :=
  ⟨fun hw => hw.showable, fun hs => ⟨hs, h⟩⟩

theorem writable_list_iff : (Tree.list ts).Writable (room + 1) ↔ ∀ t ∈ ts, t.Writable room := by
  constructor
  · intro h t ht
    exact ⟨showable_list_iff.1 h.showable t ht, isSerialList_iff.1 h.serial t ht⟩
  · intro h
    exact ⟨showable_list_iff.2 fun t ht => (h t ht).showable,
      isSerialList_iff.2 fun t ht => (h t ht).serial⟩

/-- An entry of a map that can be written. -/
def WritableEntry (room : Nat) (e : Key × Tree) : Prop :=
  (AllShort e.1.integers ∧ e.1.isMoment = false) ∧ e.2.Writable room

theorem writable_map_iff :
    (Tree.map es).Writable (room + 1) ↔ ∀ e ∈ es, WritableEntry room e := by
  constructor
  · intro h e he
    obtain ⟨hkey, hvalue⟩ := showable_map_iff.1 h.showable e he
    obtain ⟨hmoment, hserial⟩ := isSerialEntries_iff.1 h.serial e he
    exact ⟨⟨hkey, hmoment⟩, hvalue, hserial⟩
  · intro h
    refine ⟨showable_map_iff.2 fun e he => ?_, isSerialEntries_iff.2 fun e he => ?_⟩
    · exact ⟨(h e he).1.1, (h e he).2.showable⟩
    · exact ⟨(h e he).1.2, (h e he).2.serial⟩

mutual

theorem json_isOk_iff (t : Tree) (room : Nat) :
    (∃ s, t.json room = .ok s) ↔ t.Writable room := by
  cases t with
  | number n =>
    rw [writable_iff_of_isSerial rfl, showable_number_iff]
    exact n.text_isOk_iff .json
  | vector v =>
    rw [writable_iff_of_isSerial rfl, showable_vector_iff]
    simp only [json, exists_ok_bind, exists_ok_pure, and_true, v.text_isOk_iff]
  | list items =>
    cases room with
    | zero => exact iff_of_false nofun fun h => not_showable_list_zero h.showable
    | succ room =>
      simp only [json, exists_ok_bind, exists_ok_pure, and_true, writable_list_iff]
      exact jsonList_isOk_iff items room
  | map entries =>
    cases room with
    | zero => exact iff_of_false nofun fun h => not_showable_map_zero h.showable
    | succ room =>
      simp only [json, exists_ok_bind, exists_ok_pure, and_true, writable_map_iff]
      exact jsonEntries_isOk_iff entries room
  | again isMap up => exact iff_of_false nofun fun h => nomatch h.serial
  | _ => exact iff_of_true ⟨_, rfl⟩ ⟨showable_of_empty rfl rfl, rfl⟩
termination_by structural t

theorem jsonList_isOk_iff (ts : List Tree) (room : Nat) :
    (∃ s, jsonList ts room = .ok s) ↔ ∀ t ∈ ts, t.Writable room := by
  cases ts with
  | nil => exact iff_of_true ⟨_, rfl⟩ nofun
  | cons t ts =>
    simp only [jsonList, exists_ok_bind, exists_ok_pure, and_true, exists_and_right,
      List.forall_mem_cons]
    exact and_congr (json_isOk_iff t room) (jsonList_isOk_iff ts room)
termination_by structural ts

theorem jsonEntries_isOk_iff (es : List (Key × Tree)) (room : Nat) :
    (∃ s, jsonEntries es room = .ok s) ↔ ∀ e ∈ es, WritableEntry room e := by
  cases es with
  | nil => exact iff_of_true ⟨_, rfl⟩ nofun
  | cons e es =>
    obtain ⟨k, t⟩ := e
    simp only [jsonEntries, exists_ok_bind, exists_ok_pure, and_true, exists_and_right,
      List.forall_mem_cons, k.json_isOk_iff]
    have hrest := and_congr (json_isOk_iff t room) (jsonEntries_isOk_iff es room)
    exact (and_congr_right' hrest).trans and_assoc.symm
termination_by structural es

end

mutual

theorem jsonLines_isOk_iff (level : Nat) (t : Tree) (room : Nat) :
    (∃ s, jsonLines level t room = .ok s) ↔ t.Writable room := by
  cases t with
  | list items =>
    cases room with
    | zero => exact iff_of_false nofun fun h => not_showable_list_zero h.showable
    | succ room =>
      simp only [jsonLines, exists_ok_bind, exists_ok_pure, and_true, writable_list_iff]
      exact jsonLinesList_isOk_iff (level + 1) items room
  | map entries =>
    cases room with
    | zero => exact iff_of_false nofun fun h => not_showable_map_zero h.showable
    | succ room =>
      simp only [jsonLines, exists_ok_bind, exists_ok_pure, and_true, writable_map_iff]
      exact jsonLinesEntries_isOk_iff (level + 1) entries room
  -- whatever is not a table has one serial form
  | _ => exact json_isOk_iff _ room
termination_by structural t

theorem jsonLinesList_isOk_iff (level : Nat) (ts : List Tree) (room : Nat) :
    (∃ s, jsonLinesList level ts room = .ok s) ↔ ∀ t ∈ ts, t.Writable room := by
  cases ts with
  | nil => exact iff_of_true ⟨_, rfl⟩ nofun
  | cons t ts =>
    simp only [jsonLinesList, exists_ok_bind, exists_ok_pure, and_true, exists_and_right,
      List.forall_mem_cons]
    exact and_congr (jsonLines_isOk_iff level t room) (jsonLinesList_isOk_iff level ts room)
termination_by structural ts

theorem jsonLinesEntries_isOk_iff (level : Nat) (es : List (Key × Tree)) (room : Nat) :
    (∃ s, jsonLinesEntries level es room = .ok s) ↔ ∀ e ∈ es, WritableEntry room e := by
  cases es with
  | nil => exact iff_of_true ⟨_, rfl⟩ nofun
  | cons e es =>
    obtain ⟨k, t⟩ := e
    simp only [jsonLinesEntries, exists_ok_bind, exists_ok_pure, and_true, exists_and_right,
      List.forall_mem_cons, k.json_isOk_iff]
    have hrest := and_congr (jsonLines_isOk_iff level t room) (jsonLinesEntries_isOk_iff level es room)
    exact (and_congr_right' hrest).trans and_assoc.symm
termination_by structural es

end

theorem jsonOrDisplay_isOk_iff (t : Tree) (room : Nat) :
    (∃ s, t.jsonOrDisplay room = .ok s) ↔ t.Showable room := by
  unfold jsonOrDisplay
  split
  · next s hjson => exact iff_of_true ⟨s, rfl⟩ ((json_isOk_iff t room).1 ⟨s, hjson⟩).showable
  · next work hjson =>
    refine iff_of_false nofun fun h => ?_
    exact absurd (json_failsBy t room _ hjson work rfl) (Nat.not_lt_of_le h.depth_le)
  · exact display_isOk_iff t room

theorem plain_isOk_iff (t : Tree) (room : Nat) :
    (∃ s, t.plain room = .ok s) ↔ t.Showable room := by
  cases t with
  | text s => exact iff_of_true ⟨_, rfl⟩ (showable_of_empty rfl rfl)
  | vector v => exact v.text_isOk_iff.trans showable_vector_iff.symm
  | moment m => exact iff_of_true ⟨_, rfl⟩ (showable_of_empty rfl rfl)
  | _ => exact display_isOk_iff _ room

theorem scriptText_isOk_iff (t : Tree) (room : Nat) :
    (∃ s, t.scriptText room = .ok s) ↔ t.Showable room := by
  cases t with
  | nil => exact iff_of_true ⟨_, rfl⟩ (showable_of_empty rfl rfl)
  | bool b => exact iff_of_true ⟨_, rfl⟩ (showable_of_empty rfl rfl)
  | list items => exact jsonOrDisplay_isOk_iff _ room
  | map entries => exact jsonOrDisplay_isOk_iff _ room
  | number n => exact plain_isOk_iff (.number n) room
  | text s => exact plain_isOk_iff (.text s) room
  | vector v => exact plain_isOk_iff (.vector v) room
  | moment m => exact plain_isOk_iff (.moment m) room
  | again isMap up => exact plain_isOk_iff (.again isMap up) room

end Tree

end NodeScript
