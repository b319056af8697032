import Mathlib.Data.List.Perm.Subperm
import NodeScript.Proofs.Relocation.Values

/-!
Pictures of values under a relocation. A tree has no addresses, so a relocation changes only its
marks, which no text of a value shows.
-/

namespace NodeScript

variable {ρ : Relocation} {h h' : Heap}

namespace Tree

mutual

def move (ρ : Relocation) : Tree → Tree
  | .nil => .nil
  | .bool b => .bool b
  | .number n => .number (n.move ρ)
  | .text s => .text s
  | .vector v => .vector (v.move ρ)
  | .moment m => .moment m
  | .list items => .list (moveList ρ items)
  | .map entries => .map (moveEntries ρ entries)
  | .again isMap up => .again isMap up
termination_by structural t => t

def moveList (ρ : Relocation) : List Tree → List Tree
  | [] => []
  | t :: ts => t.move ρ :: moveList ρ ts
termination_by structural ts => ts

def moveEntries (ρ : Relocation) : List (Key × Tree) → List (Key × Tree)
  | [] => []
  | (k, t) :: es => (k.move ρ, t.move ρ) :: moveEntries ρ es
termination_by structural es => es

end

theorem moveList_eq_map (ts : List Tree) : moveList ρ ts = ts.map (move ρ) := by
  induction ts with
  | nil => rfl
  | cons t ts ih => simp [moveList, ih]

theorem moveEntries_eq_map (es : List (Key × Tree)) :
    moveEntries ρ es = es.map fun (k, t) => (k.move ρ, t.move ρ) := by
  induction es with
  | nil => rfl
  | cons e es ih => simp [moveEntries, ih]

/-! ### Texts -/

mutual

theorem display_move (t : Tree) (room : Nat) : (t.move ρ).display room = t.display room := by
  cases t with
  | number n => simp [move, display]
  | vector v => simp [move, display]
  | list items =>
    cases room with
    | zero => rfl
    | succ room => simp only [move, display, displayList_move items room]
  | map entries =>
    cases room with
    | zero => rfl
    | succ room => simp only [move, display, displayEntries_move entries room]
  | _ => rfl
termination_by structural t

theorem displayList_move (ts : List Tree) (room : Nat) :
    displayList (moveList ρ ts) room = displayList ts room := by
  cases ts with
  | nil => rfl
  | cons t ts => simp only [moveList, displayList, display_move t, displayList_move ts]
termination_by structural ts

theorem displayEntries_move (es : List (Key × Tree)) (room : Nat) :
    displayEntries (moveEntries ρ es) room = displayEntries es room := by
  cases es with
  | nil => rfl
  | cons e es =>
    obtain ⟨k, t⟩ := e
    simp only [moveEntries, displayEntries, Key.display_move, display_move t,
      displayEntries_move es]
termination_by structural es

end

mutual

theorem json_move (t : Tree) (room : Nat) : (t.move ρ).json room = t.json room := by
  cases t with
  | number n => simp [move, json]
  | vector v => simp [move, json]
  | list items =>
    cases room with
    | zero => rfl
    | succ room => simp only [move, json, jsonList_move items room]
  | map entries =>
    cases room with
    | zero => rfl
    | succ room => simp only [move, json, jsonEntries_move entries room]
  | _ => rfl
termination_by structural t

theorem jsonList_move (ts : List Tree) (room : Nat) :
    jsonList (moveList ρ ts) room = jsonList ts room := by
  cases ts with
  | nil => rfl
  | cons t ts => simp only [moveList, jsonList, json_move t, jsonList_move ts]
termination_by structural ts

theorem jsonEntries_move (es : List (Key × Tree)) (room : Nat) :
    jsonEntries (moveEntries ρ es) room = jsonEntries es room := by
  cases es with
  | nil => rfl
  | cons e es =>
    obtain ⟨k, t⟩ := e
    simp only [moveEntries, jsonEntries, Key.json_move, json_move t, jsonEntries_move es]
termination_by structural es

end

theorem plain_move (t : Tree) (room : Nat) : (t.move ρ).plain room = t.plain room := by
  cases t with
  | text s => rfl
  | vector v => exact v.text_move
  | moment m => rfl
  | _ => exact display_move _ room

theorem jsonOrDisplay_move (t : Tree) (room : Nat) :
    (t.move ρ).jsonOrDisplay room = t.jsonOrDisplay room := by
  simp only [jsonOrDisplay, json_move, display_move]

theorem scriptText_move (t : Tree) (room : Nat) :
    (t.move ρ).scriptText room = t.scriptText room := by
  have hplain : (t.move ρ).plain room = t.plain room := plain_move t room
  cases t with
  | nil | bool => rfl
  | list | map => exact jsonOrDisplay_move _ room
  | _ => exact hplain

end Tree

/-! ### Unfolding a heap -/

namespace Heap

/-- A path without repetitions meets every table once at most. -/
theorem length_path_le {path : List Nat} (hpath : path.Nodup) (hin : ∀ a ∈ path, a < h.size) :
    path.length ≤ h.size := by
  have hsub : path ⊆ List.range h.size := fun a ha => List.mem_range.2 (hin a ha)
  simpa using (List.subperm_of_subset hpath hsub).length_le

theorem get_of_le {a : Nat} (ha : h.size ≤ a) : h.get a = .array [] := by
  simp only [get, size] at ha ⊢
  simp [Array.getD_eq_getD_getElem?, ha, default]

/-- Once the depth exceeds the tables that are not yet on the path, it does not matter. -/
theorem unfold_depth {path : List Nat} (hpath : path.Nodup) (hin : ∀ a ∈ path, a < h.size)
    {depth depth' : Nat} (hd : h.size < depth + path.length) (hd' : h.size < depth' + path.length)
    (v : Value) : h.unfold depth path v = h.unfold depth' path v := by
  induction depth generalizing depth' path v with
  | zero => exact absurd (length_path_le hpath hin) (by omega)
  | succ depth ih =>
    cases depth' with
    | zero => exact absurd (length_path_le hpath hin) (by omega)
    | succ depth' =>
      cases v with
      | table a =>
        simp only [unfold]
        cases hfound : path.findIdx? (· == a) with
        | some i => cases h.get a <;> rfl
        | none =>
          by_cases ha : a < h.size
          · have hnew : a ∉ path := by
              intro hmem
              simpa using List.findIdx?_eq_none_iff.1 hfound a hmem
            have hstep : h.unfold depth (a :: path) = h.unfold depth' (a :: path) := by
              funext v
              refine ih (List.nodup_cons.2 ⟨hnew, hpath⟩) ?_ ?_ ?_ v
              · simpa [ha] using hin
              · simp only [List.length_cons]
                omega
              · simp only [List.length_cons]
                omega
            rw [hstep]
          · rw [get_of_le (Nat.not_lt.1 ha)]
            rfl
      | _ => rfl

end Heap

namespace Heap.Moved

variable (hm : Heap.Moved ρ h h')

include hm

theorem unfold (depth : Nat) (path : List Nat) (v : Value) :
    h'.unfold depth (path.map ρ.address) (v.move ρ) = (h.unfold depth path v).move ρ := by
  induction depth generalizing path v with
  | zero => cases v <;> rfl
  | succ depth ih =>
    cases v with
    | table a =>
      have hfound : (path.map ρ.address).findIdx? (· == ρ.address a) = path.findIdx? (· == a) := by
        rw [List.findIdx?_map]
        congr 1
        funext b
        exact Bool.eq_iff_iff.2 (by simp)
      have hnext (v : Value) : h'.unfold depth (ρ.address a :: path.map ρ.address) (v.move ρ) =
          (h.unfold depth (a :: path) v).move ρ := ih (a :: path) v
      simp only [Value.move_table, Heap.unfold, hfound, hm.get_eq]
      cases path.findIdx? (· == a) <;> cases h.get a <;>
        simp [Table.move, Tree.move, Tree.moveList_eq_map, Tree.moveEntries_eq_map, hnext]
    | _ => rfl

theorem tree (v : Value) : h'.tree (v.move ρ) = (h.tree v).move ρ := by
  have hdepth : h.unfold (h.size + 1) [] v = h.unfold (h'.size + 1) [] v := by
    have := hm.size_eq
    exact Heap.unfold_depth List.nodup_nil (by simp) (by simp) (by simp; omega) v
  rw [Heap.tree, Heap.tree, hdepth]
  exact hm.unfold _ [] v

theorem display (room : Nat) (v : Value) : h'.display room (v.move ρ) = h.display room v := by
  simp only [Heap.display, hm.tree, Tree.display_move]

theorem plain (room : Nat) (v : Value) : h'.plain room (v.move ρ) = h.plain room v := by
  simp only [Heap.plain, hm.tree, Tree.plain_move]

theorem scriptText (room : Nat) (v : Value) :
    h'.scriptText room (v.move ρ) = h.scriptText room v := by
  simp only [Heap.scriptText, hm.tree, Tree.scriptText_move]

theorem jsonOrDisplay (room : Nat) (v : Value) :
    h'.jsonOrDisplay room (v.move ρ) = h.jsonOrDisplay room v := by
  simp only [Heap.jsonOrDisplay, hm.tree, Tree.jsonOrDisplay_move]

end Heap.Moved

/-! ### Building a tree up -/

namespace Heap.Moved

theorem reserve (hm : Heap.Moved ρ h h') :
    h'.reserve.1 = ρ.address h.reserve.1 ∧ Heap.Moved ρ h.reserve.2 h'.reserve.2 :=
  hm.alloc (.array [])

mutual

theorem build (t : Tree) (path : List Nat) {h h' : Heap} (hm : Heap.Moved ρ h h') :
    (Heap.build (t.move ρ) (path.map ρ.address) h').1 = (Heap.build t path h).1.move ρ ∧
      Heap.Moved ρ (Heap.build t path h).2
        (Heap.build (t.move ρ) (path.map ρ.address) h').2 := by
  cases t with
  | number n =>
    obtain ⟨hn, hm⟩ := hm.mark n
    exact ⟨by simp [Heap.build, Tree.move, hn], hm⟩
  | vector v =>
    obtain ⟨hv, hm⟩ := hm.markVector v
    exact ⟨by simp [Heap.build, Tree.move, hv, Value.move], hm⟩
  | list items =>
    obtain ⟨ha, hr⟩ := hm.reserve
    obtain ⟨hvs, hb⟩ := buildList items (h.reserve.1 :: path) hr
    rw [List.map_cons] at hvs hb
    refine ⟨by simp [Heap.build, Tree.move, ha], ?_⟩
    have hset := hb.set h.reserve.1
      (.array (Heap.buildList items (h.reserve.1 :: path) h.reserve.2).1)
    simpa [Heap.build, Tree.move, Table.move, hvs, ha] using hset
  | map entries =>
    obtain ⟨ha, hr⟩ := hm.reserve
    obtain ⟨hps, hb⟩ := buildEntries entries (h.reserve.1 :: path) hr
    rw [List.map_cons] at hps hb
    refine ⟨by simp [Heap.build, Tree.move, ha], ?_⟩
    have hset := hb.set h.reserve.1
      (.map (.ofList (Heap.buildEntries entries (h.reserve.1 :: path) h.reserve.2).1))
    simpa [Heap.build, Tree.move, Table.move, hps, ha,
      Dict.ofList_mapBoth Key.beq_move (Value.move ρ)] using hset
  | again isMap up =>
    simp only [Heap.build, Tree.move, List.getElem?_map]
    cases path[up - 1]? with
    | none => exact ⟨rfl, hm⟩
    | some a => exact ⟨rfl, hm⟩
  | _ => exact ⟨rfl, hm⟩
termination_by structural t

theorem buildList (ts : List Tree) (path : List Nat) {h h' : Heap} (hm : Heap.Moved ρ h h') :
    (Heap.buildList (Tree.moveList ρ ts) (path.map ρ.address) h').1 =
        (Heap.buildList ts path h).1.map (Value.move ρ) ∧
      Heap.Moved ρ (Heap.buildList ts path h).2
        (Heap.buildList (Tree.moveList ρ ts) (path.map ρ.address) h').2 := by
  cases ts with
  | nil => exact ⟨rfl, hm⟩
  | cons t ts =>
    obtain ⟨hv, hm⟩ := build t path hm
    obtain ⟨hvs, hm⟩ := buildList ts path hm
    exact ⟨by simp [Heap.buildList, Tree.moveList, hv, hvs], hm⟩
termination_by structural ts

theorem buildEntries (es : List (Key × Tree)) (path : List Nat) {h h' : Heap}
    (hm : Heap.Moved ρ h h') :
    (Heap.buildEntries (Tree.moveEntries ρ es) (path.map ρ.address) h').1 =
        (Heap.buildEntries es path h).1.map (fun (k, v) => (k.move ρ, v.move ρ)) ∧
      Heap.Moved ρ (Heap.buildEntries es path h).2
        (Heap.buildEntries (Tree.moveEntries ρ es) (path.map ρ.address) h').2 := by
  cases es with
  | nil => exact ⟨rfl, hm⟩
  | cons e es =>
    obtain ⟨k, t⟩ := e
    obtain ⟨hk, hm⟩ := hm.markKey k
    obtain ⟨hv, hm⟩ := build t path hm
    obtain ⟨hps, hm⟩ := buildEntries es path hm
    exact ⟨by simp [Heap.buildEntries, Tree.moveEntries, hk, hv, hps], hm⟩
termination_by structural es

end

end Heap.Moved

/-! ### Literals -/

namespace Serial

variable {cs rest : List Char} {t : Tree}

theorem readNumber_move (hr : readNumber cs = .ok (t, rest)) : t.move ρ = t := by
  unfold readNumber at hr
  dsimp only at hr
  repeat' split at hr
  all_goals cases hr
  all_goals rfl

/-- The only mark that a text can write is the one that is always the same. -/
theorem readWord?_move (hr : readWord? cs = some (t, rest)) : t.move ρ = t := by
  obtain ⟨⟨word, tree⟩, hword, hr⟩ := List.exists_of_findSome?_eq_some hr
  have htree : tree.move ρ = tree := by
    simp only [words, List.mem_cons, Prod.mk.injEq, List.not_mem_nil, or_false] at hword
    obtain ⟨-, rfl⟩ | ⟨-, rfl⟩ | ⟨-, rfl⟩ | ⟨-, rfl⟩ | ⟨-, rfl⟩ | ⟨-, rfl⟩ := hword <;>
      simp [Tree.move, Number.move, ρ.mark_of_lt ρ.marks_pos]
  dsimp only at hr
  split at hr
  · cases hr
    exact htree
  · cases hr

/-- What can be read in so many steps has no marks that a relocation changes. -/
structure ReadsFixed (ρ : Relocation) (fuel : Nat) : Prop where
  value {room : Nat} {cs rest : List Char} {t : Tree} :
    readValue fuel room cs = .ok (t, rest) → t.move ρ = t
  items {room : Nat} {cs rest : List Char} {ts : List Tree} :
    readItems fuel room cs = .ok (ts, rest) → Tree.moveList ρ ts = ts
  members {room : Nat} {cs rest : List Char} {es : List (Key × Tree)} :
    readMembers fuel room cs = .ok (es, rest) → Tree.moveEntries ρ es = es

theorem ofList_move {es : List (Key × Tree)} (hes : Tree.moveEntries ρ es = es) :
    Tree.moveEntries ρ (Dict.ofList es).entries = (Dict.ofList es).entries := by
  rw [Tree.moveEntries_eq_map] at hes ⊢
  have hlist := Dict.ofList_mapBoth (Key.beq_move (ρ := ρ)) (Tree.move ρ) es
  rw [hes] at hlist
  exact congrArg Dict.entries hlist.symm

theorem exists_of_bind {ε α β : Type} {x : Except ε α} {f : α → Except ε β} {b : β}
    (hx : x >>= f = .ok b) : ∃ a, x = .ok a ∧ f a = .ok b := by
  cases x with
  | ok a => exact ⟨a, rfl, hx⟩
  | error e => cases hx

theorem readsFixed (fuel : Nat) : ReadsFixed ρ fuel := by
  induction fuel with
  | zero => exact ⟨by simp [readValue], by simp [readItems], by simp [readMembers]⟩
  | succ fuel ih =>
    refine ⟨fun {room cs rest t} hr => ?_, fun {room cs rest ts} hr => ?_,
      fun {room cs rest es} hr => ?_⟩
    · simp only [readValue] at hr
      split at hr
      · obtain ⟨_, -, ⟨⟩⟩ := exists_of_bind hr
        rfl
      · split at hr
        · cases hr
        · split at hr
          · cases hr
            rfl
          · obtain ⟨⟨items, _⟩, hitems, ⟨⟩⟩ := exists_of_bind hr
            simp [Tree.move, ih.items hitems]
      · split at hr
        · cases hr
        · split at hr
          · cases hr
            rfl
          · obtain ⟨⟨entries, _⟩, hentries, ⟨⟩⟩ := exists_of_bind hr
            simp [Tree.move, ofList_move (ih.members hentries)]
      · split at hr
        · next hword =>
          cases hr
          exact readWord?_move hword
        · exact readNumber_move hr
    · simp only [readItems] at hr
      obtain ⟨⟨item, _⟩, hitem, hr⟩ := exists_of_bind hr
      dsimp only at hr
      split at hr
      · cases hr
        simp [Tree.moveList, ih.value hitem]
      · obtain ⟨⟨items, _⟩, hitems, ⟨⟩⟩ := exists_of_bind hr
        simp [Tree.moveList, ih.value hitem, ih.items hitems]
      · cases hr
    · simp only [readMembers] at hr
      split at hr
      · obtain ⟨⟨name, _⟩, -, hr⟩ := exists_of_bind hr
        dsimp only at hr
        split at hr
        · obtain ⟨⟨value, _⟩, hvalue, hr⟩ := exists_of_bind hr
          dsimp only at hr
          split at hr
          · cases hr
            simp [Tree.moveEntries, ih.value hvalue]
          · obtain ⟨⟨members, _⟩, hmembers, ⟨⟩⟩ := exists_of_bind hr
            simp [Tree.moveEntries, ih.value hvalue, ih.members hmembers]
          · cases hr
        · cases hr
      · cases hr

theorem read_move {room : Nat} (hr : read room cs = .ok t) : t.move ρ = t := by
  obtain ⟨⟨tree, _⟩, htree, hr⟩ := exists_of_bind hr
  dsimp only at hr
  split at hr
  · cases hr
    exact (readsFixed _).value htree
  · cases hr

end Serial

namespace Literal

variable {cs : List Char} {t : Tree}

theorem readWhole_move (hr : readWhole cs = .ok t) : t.move ρ = t := by
  unfold readWhole at hr
  split at hr <;> cases hr <;> rfl

theorem readFractional_move (cs : List Char) : (readFractional cs).move ρ = readFractional cs := by
  unfold readFractional
  split <;> rfl

theorem readQuoted_move {room : Nat} (hr : readQuoted room cs = .ok t) :
    t.move ρ = t := by
  unfold readQuoted at hr
  split at hr
  · split at hr
    · next hread =>
      cases hr
      exact Serial.read_move hread
    · cases hr
    · cases hr
    · cases hr
      rfl
  · cases hr
    rfl

/-- What a literal means has no marks that a relocation changes. -/
theorem read_move {room : Nat} {s : String} (hr : read room s = .ok t) :
    t.move ρ = t := by
  simp only [read] at hr
  split at hr
  · cases hr
    rfl
  · split at hr
    · cases hr
      rfl
    · split at hr
      · cases hr
        rfl
      · split at hr
        · exact readWhole_move hr
        · cases hr
          exact readFractional_move _
        · split at hr
          · exact readQuoted_move hr
          · cases hr
            rfl

end Literal

namespace Heap.Moved

theorem store (hm : Heap.Moved ρ h h') {t : Tree} (ht : t.move ρ = t) :
    (h'.store t).1 = (h.store t).1.move ρ ∧ Heap.Moved ρ (h.store t).2 (h'.store t).2 := by
  have hbuild := build t [] hm
  rwa [ht] at hbuild

theorem literal (hm : Heap.Moved ρ h h') (room : Nat) (v : Value) :
    match h.literal room v with
    | .ok (w, g) => ∃ g', h'.literal room (v.move ρ) = .ok (w.move ρ, g') ∧ Heap.Moved ρ g g'
    | .error f => h'.literal room (v.move ρ) = .error f := by
  cases v with
  | text s =>
    simp only [Heap.literal, Value.move_text]
    cases hr : Literal.read room s with
    | error f => rfl
    | ok t =>
      obtain ⟨hv, hm⟩ := hm.store (Literal.read_move hr)
      exact ⟨(h'.store t).2, congrArg (fun w => Except.ok (w, (h'.store t).2)) hv, hm⟩
  | _ => exact ⟨h', rfl, hm⟩

end Heap.Moved

end NodeScript
