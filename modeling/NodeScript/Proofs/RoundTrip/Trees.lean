import Mathlib
import NodeScript.Proofs.RawLookup
import NodeScript.Proofs.RoundTrip.Texts

/-!
Tables that read back. A tree of nothing, truth values, integers and whole texts, in lists and in maps
with such texts as keys, is the tree that its serial form is read as, entries in their order, and it is the
picture of the value that is built up from it in the heap.
-/

namespace NodeScript

open Text Number

/-- Trees whose serial form says all there is about them. -/
inductive Tree.Plain : Tree → Prop
  | nil : Plain .nil
  | bool (b : Bool) : Plain (.bool b)
  | int {n : Int} (hn : n.natAbs < 10 ^ digitLimit) : Plain (.int n)
  | text {s : String} (hs : IsWhole s) : Plain (.text s)
  | list {items : List Tree} (hitems : ∀ t ∈ items, Plain t) : Plain (.list items)
  | map {entries : List (Key × Tree)} (hdistinct : Dict.Distinct entries)
      (hkeys : ∀ e ∈ entries, ∃ s, IsWhole s ∧ e.1 = .text s)
      (hvalues : ∀ e ∈ entries, Plain e.2) : Plain (.map entries)

/-! ### Reading the serial form -/

namespace Serial

variable {room : Nat} {cs rest : List Char} {t : Tree}

theorem skipSpaces_cons {c : Char} (hc : isSpace c = false) (cs : List Char) :
    skipSpaces (c :: cs) = c :: cs := by
  simp [skipSpaces, hc]

/-- A text that is read as a tree wherever a value may stand. An opening bracket takes two steps, so
twice the length bounds the steps. -/
structure Writes (room : Nat) (cs : List Char) (t : Tree) : Prop where
  head : ∃ c cs', cs = c :: cs' ∧ isSpace c = false ∧ c ≠ ']'
  value (fuel : Nat) (rest : List Char) (hfuel : 2 * cs.length ≤ fuel) (hrest : Ends rest) :
    readValue fuel room (cs ++ rest) = .ok (t, rest)

namespace Writes

theorem skipSpaces_append (h : Writes room cs t) (rest : List Char) :
    skipSpaces (cs ++ rest) = cs ++ rest := by
  obtain ⟨c, cs', rfl, hc, -⟩ := h.head
  exact skipSpaces_cons hc _

theorem value_after_space (h : Writes room cs t) (fuel : Nat) (rest : List Char)
    (hfuel : 2 * cs.length ≤ fuel) (hrest : Ends rest) :
    readValue fuel room (skipSpaces (' ' :: (cs ++ rest))) = .ok (t, rest) := by
  change readValue fuel room (skipSpaces (cs ++ rest)) = _
  rw [h.skipSpaces_append, h.value fuel rest hfuel hrest]

end Writes

/-- There is a step to take, since the text is not empty. -/
theorem writes_cons {c : Char} (hspace : isSpace c = false) (hclose : c ≠ ']')
    (hvalue : ∀ fuel rest, 2 * cs.length + 1 ≤ fuel → Ends rest →
      readValue (fuel + 1) room (c :: (cs ++ rest)) = .ok (t, rest)) : Writes room (c :: cs) t where
  head := ⟨c, cs, rfl, hspace, hclose⟩
  value fuel rest hfuel hrest := by
    rw [List.length_cons] at hfuel
    obtain ⟨fuel, rfl⟩ := Nat.exists_eq_succ_of_ne_zero (show fuel ≠ 0 by omega)
    exact hvalue fuel rest (by omega) hrest

theorem writes_nil : Writes room ['n', 'u', 'l', 'l'] .nil :=
  writes_cons rfl (by decide) fun _ _ _ _ => rfl

theorem writes_true : Writes room ['t', 'r', 'u', 'e'] (.bool true) :=
  writes_cons rfl (by decide) fun _ _ _ _ => rfl

theorem writes_false : Writes room ['f', 'a', 'l', 's', 'e'] (.bool false) :=
  writes_cons rfl (by decide) fun _ _ _ _ => rfl

theorem writes_spelled {n : Int} (hn : n.natAbs < 10 ^ digitLimit) :
    Writes room (spelled n) (.int n) := by
  obtain ⟨c, cs, hcs, hc⟩ := exists_spelled_eq_cons n
  have hother (d : Char) (hdigit : d.isDigit = false) (hsign : d ≠ '-') : c ≠ d := by
    rintro rfl
    obtain hc | hc := hc
    · simp [hdigit] at hc
    · exact hsign hc
  rw [hcs]
  refine writes_cons ?_ (hother ']' rfl (by decide)) fun fuel rest _ hrest => ?_
  · simp [isSpace, hother ' ' rfl (by decide), hother '\t' rfl (by decide),
      hother '\n' rfl (by decide), hother '\r' rfl (by decide)]
  · have hquote := hother '"' rfl (by decide)
    have hlist := hother '[' rfl (by decide)
    have hmap := hother '\x7b' rfl (by decide)
    have hword := readWord?_spelled n rest
    have hnumber := readNumber_spelled hn hrest
    rw [hcs, List.cons_append] at hword hnumber
    simp [readValue, hquote, hlist, hmap, hword, hnumber]

theorem writes_quoted {s : String} (hs : IsWhole s) :
    Writes room ('"' :: ((lettersOf s).flatMap jsonLetter ++ ['"'])) (.text s) := by
  obtain ⟨cs, rfl⟩ := hs
  refine writes_cons rfl (by decide) fun fuel rest _ _ => ?_
  rw [List.append_assoc, List.singleton_append, readValue, readText_quoted]
  rfl

/-! ### Lists and maps -/

/-- Parts as they stand between two brackets. -/
def joined (parts : List (List Char)) : List Char := [',', ' '].intercalate parts

theorem joined_singleton (part : List Char) : joined [part] = part :=
  List.intercalate_singleton

theorem joined_cons_cons (part next : List Char) (parts : List (List Char)) :
    joined (part :: next :: parts) = part ++ ',' :: ' ' :: joined (next :: parts) := by
  simp [joined, List.intercalate_cons_cons]

theorem exists_joined_eq_cons (c : Char) (part : List Char) (parts : List (List Char)) :
    ∃ cs, joined ((c :: part) :: parts) = c :: cs := by
  cases parts with
  | nil => exact ⟨part, joined_singleton _⟩
  | cons next parts => exact ⟨_, joined_cons_cons ..⟩

/-- A space stands between a comma and the part after it. -/
theorem skipSpaces_joined {c : Char} (hc : isSpace c = false) (part : List Char)
    (parts : List (List Char)) (rest : List Char) :
    skipSpaces (' ' :: (joined ((c :: part) :: parts) ++ rest)) =
      joined ((c :: part) :: parts) ++ rest := by
  obtain ⟨cs, hcs⟩ := exists_joined_eq_cons c part parts
  rw [hcs]
  exact skipSpaces_cons hc _

theorem readItems_joined {parts : List (List Char)} {items : List Tree}
    (h : List.Forall₂ (Writes room) parts items) (hne : items ≠ []) (fuel : Nat)
    (hfuel : 2 * (joined parts).length + 1 ≤ fuel) (rest : List Char) :
    readItems fuel room (joined parts ++ ']' :: rest) = .ok (items, rest) := by
  -- Each part takes one step of its own, and the comma behind it pays for that.
  induction h generalizing fuel with
  | nil => exact absurd rfl hne
  | @cons part item parts items hhead htail ih =>
    obtain ⟨fuel, rfl⟩ := Nat.exists_eq_succ_of_ne_zero (show fuel ≠ 0 by omega)
    cases htail with
    | nil =>
      rw [joined_singleton] at hfuel ⊢
      rw [readItems, hhead.value fuel (']' :: rest) (by omega) (by simp [Ends])]
      rfl
    | @cons next _ parts _ hnext htail =>
      rw [joined_cons_cons] at hfuel ⊢
      simp only [List.length_append, List.length_cons] at hfuel
      obtain ⟨c, next, rfl, hspace, -⟩ := hnext.head
      have hitems := ih (by simp) fuel (by omega)
      rw [← skipSpaces_joined hspace] at hitems
      rw [List.append_assoc, readItems, hhead.value fuel _ (by omega) (by simp [Ends])]
      change (readItems fuel room (skipSpaces (' ' :: (joined ((c :: next) :: parts) ++ _))) >>=
        fun found => .ok (item :: found.1, found.2)) = _
      rw [hitems]
      rfl

theorem writes_list {parts : List (List Char)} {items : List Tree}
    (h : List.Forall₂ (Writes room) parts items) :
    Writes (room + 1) ('[' :: (joined parts ++ [']'])) (.list items) := by
  refine writes_cons rfl (by decide) fun fuel rest hfuel _ => ?_
  cases h with
  | nil => rfl
  | @cons part item parts items hhead htail =>
    simp only [List.length_append, List.length_cons, List.length_nil] at hfuel
    have hitems := readItems_joined (.cons hhead htail) (by simp) fuel (by omega) rest
    obtain ⟨c, part, rfl, hspace, hclose⟩ := hhead.head
    obtain ⟨cs, hcs⟩ := exists_joined_eq_cons c part parts
    rw [hcs, List.cons_append] at hitems
    rw [hcs, List.append_assoc, List.singleton_append, List.cons_append]
    simp [readValue, skipSpaces_cons hspace, hclose, hitems]

/-- A member of a map as it is written. -/
inductive WritesMember (room : Nat) : List Char → Key × Tree → Prop
  | intro {name : String} {shown : List Char} {t : Tree} (hname : IsWhole name)
      (h : Writes room shown t) :
      WritesMember room ('"' :: ((lettersOf name).flatMap jsonLetter ++ '"' :: ':' :: ' ' :: shown))
        (.text name, t)

section

variable {part : List Char} {entry : Key × Tree}

theorem readMembers_last (h : WritesMember room part entry) (fuel : Nat)
    (hfuel : 2 * part.length ≤ fuel) (rest : List Char) :
    readMembers (fuel + 1) room (part ++ '\x7d' :: rest) = .ok ([entry], rest) := by
  obtain ⟨⟨cs, rfl⟩, hshown⟩ := h
  simp only [List.length_append, List.length_cons] at hfuel
  have hvalue := hshown.value_after_space fuel ('\x7d' :: rest) (by omega) (by simp [Ends])
  simp [readMembers, readText_quoted, bind, Except.bind, pure, Except.pure, skipSpaces_cons,
    isSpace, hvalue]

theorem readMembers_next (h : WritesMember room part entry) (fuel : Nat)
    (hfuel : 2 * part.length ≤ fuel) (rest : List Char) :
    readMembers (fuel + 1) room (part ++ ',' :: rest) =
      readMembers fuel room (skipSpaces rest) >>= fun found =>
        .ok (entry :: found.1, found.2) := by
  obtain ⟨⟨cs, rfl⟩, hshown⟩ := h
  simp only [List.length_append, List.length_cons] at hfuel
  have hvalue := hshown.value_after_space fuel (',' :: rest) (by omega) (by simp [Ends])
  simp [readMembers, readText_quoted, bind, Except.bind, pure, Except.pure, skipSpaces_cons,
    isSpace, hvalue]

end

theorem readMembers_joined {parts : List (List Char)} {entries : List (Key × Tree)}
    (h : List.Forall₂ (WritesMember room) parts entries) (hne : entries ≠ []) (fuel : Nat)
    (hfuel : 2 * (joined parts).length + 1 ≤ fuel) (rest : List Char) :
    readMembers fuel room (joined parts ++ '\x7d' :: rest) = .ok (entries, rest) := by
  induction h generalizing fuel with
  | nil => exact absurd rfl hne
  | @cons part entry parts entries hhead htail ih =>
    obtain ⟨fuel, rfl⟩ := Nat.exists_eq_succ_of_ne_zero (show fuel ≠ 0 by omega)
    cases htail with
    | nil =>
      rw [joined_singleton] at hfuel ⊢
      rw [readMembers_last hhead fuel (by omega)]
    | @cons next _ parts _ hnext htail =>
      rw [joined_cons_cons] at hfuel ⊢
      simp only [List.length_append, List.length_cons] at hfuel
      have hmembers := ih (by simp) fuel (by omega)
      obtain ⟨-, hshown⟩ := hnext
      rw [← skipSpaces_joined rfl] at hmembers
      rw [List.append_assoc, List.cons_append, readMembers_next hhead fuel (by omega),
        List.cons_append, hmembers]
      rfl

theorem writes_map {parts : List (List Char)} {entries : List (Key × Tree)}
    (h : List.Forall₂ (WritesMember room) parts entries) (hd : Dict.Distinct entries) :
    Writes (room + 1) ('\x7b' :: (joined parts ++ ['\x7d'])) (.map entries) := by
  refine writes_cons rfl (by decide) fun fuel rest hfuel _ => ?_
  cases h with
  | nil => rfl
  | @cons part entry parts entries hhead htail =>
    simp only [List.length_append, List.length_cons, List.length_nil] at hfuel
    have hmembers := readMembers_joined (.cons hhead htail) (by simp) fuel (by omega) rest
    obtain ⟨-, hshown⟩ := hhead
    obtain ⟨cs, hcs⟩ := exists_joined_eq_cons '"' _ parts
    rw [hcs, List.cons_append] at hmembers
    rw [hcs, List.append_assoc, List.singleton_append, List.cons_append]
    have hspace : isSpace '"' = false := rfl
    simpa [readValue, skipSpaces_cons hspace, hmembers] using Dict.entries_ofList hd

end Serial

/-! ### Writing the serial form -/

namespace Tree

open Serial

variable {t : Tree}

/-- A tree has one serial form where there is room for it, which is read as the tree. -/
def Reread (t : Tree) : Prop :=
  ∃ s, ∀ room, t.depth ≤ room → t.json room = .ok s ∧ Writes room s.toList t

theorem toList_commaSeparated (parts : List String) :
    (commaSeparated parts).toList = joined (parts.map String.toList) := by
  simp [commaSeparated, joined, String.toList_intercalate]

theorem exists_jsonList {items : List Tree} (h : ∀ t ∈ items, Reread t) :
    ∃ parts, ∀ room, depthList items ≤ room → jsonList items room = .ok parts ∧
      List.Forall₂ (Writes room) (parts.map String.toList) items := by
  induction items with
  | nil => exact ⟨[], fun _ _ => ⟨rfl, .nil⟩⟩
  | cons t items ih =>
    obtain ⟨⟨s, hs⟩, htail⟩ := List.forall_mem_cons.1 h
    obtain ⟨parts, hparts⟩ := ih htail
    refine ⟨s :: parts, fun room hroom => ?_⟩
    obtain ⟨hroom, hrooms⟩ := Nat.max_le.1 hroom
    obtain ⟨hjson, hwrites⟩ := hs room hroom
    obtain ⟨hjsons, hall⟩ := hparts room hrooms
    refine ⟨?_, .cons hwrites hall⟩
    simp [jsonList, hjson, hjsons]
    rfl

theorem exists_jsonEntries {entries : List (Key × Tree)}
    (hkeys : ∀ e ∈ entries, ∃ s, IsWhole s ∧ e.1 = .text s) (h : ∀ e ∈ entries, Reread e.2) :
    ∃ parts, ∀ room, depthEntries entries ≤ room → jsonEntries entries room = .ok parts ∧
      List.Forall₂ (WritesMember room) (parts.map String.toList) entries := by
  induction entries with
  | nil => exact ⟨[], fun _ _ => ⟨rfl, .nil⟩⟩
  | cons e entries ih =>
    obtain ⟨k, t⟩ := e
    obtain ⟨⟨s, hs⟩, htail⟩ := List.forall_mem_cons.1 h
    obtain ⟨⟨name, hname, rfl⟩, hnames⟩ := List.forall_mem_cons.1 hkeys
    obtain ⟨parts, hparts⟩ := ih hnames htail
    refine ⟨(jsonQuoted name ++ ": " ++ s) :: parts, fun room hroom => ?_⟩
    obtain ⟨hroom, hrooms⟩ := Nat.max_le.1 hroom
    obtain ⟨hjson, hwrites⟩ := hs room hroom
    obtain ⟨hjsons, hall⟩ := hparts room hrooms
    have hmember : WritesMember room _ (.text name, t) := .intro hname hwrites
    refine ⟨?_, .cons ?_ hall⟩
    · simp [jsonEntries, Key.json, hjson, hjsons]
      rfl
    · simpa [jsonQuoted] using hmember

theorem Plain.reread (ht : t.Plain) : Reread t := by
  induction ht with
  | nil => exact ⟨_, fun _ _ => ⟨rfl, writes_nil⟩⟩
  | bool b =>
    cases b with
    | true => exact ⟨_, fun _ _ => ⟨rfl, writes_true⟩⟩
    | false => exact ⟨_, fun _ _ => ⟨rfl, writes_false⟩⟩
  | int hn => exact ⟨_, fun _ _ => ⟨integerText_eq hn, by simpa using writes_spelled hn⟩⟩
  | text hs => exact ⟨_, fun _ _ => ⟨rfl, by simpa [jsonQuoted] using writes_quoted hs⟩⟩
  | list _ ih =>
    obtain ⟨parts, hparts⟩ := exists_jsonList ih
    refine ⟨bracketed (commaSeparated parts), fun room hroom => ?_⟩
    obtain ⟨room, rfl⟩ := Nat.exists_eq_add_of_le' (Nat.le_trans (Nat.le_add_left 1 _) hroom)
    obtain ⟨hjsons, hall⟩ := hparts room (Nat.le_of_succ_le_succ hroom)
    refine ⟨?_, ?_⟩
    · simp [json, hjsons]
    · simpa [bracketed, toList_commaSeparated] using writes_list hall
  | map hdistinct hkeys _ ih =>
    obtain ⟨parts, hparts⟩ := exists_jsonEntries hkeys ih
    refine ⟨braced (commaSeparated parts), fun room hroom => ?_⟩
    obtain ⟨room, rfl⟩ := Nat.exists_eq_add_of_le' (Nat.le_trans (Nat.le_add_left 1 _) hroom)
    obtain ⟨hjsons, hall⟩ := hparts room (Nat.le_of_succ_le_succ hroom)
    refine ⟨?_, ?_⟩
    · simp [json, hjsons]
    · simpa [braced, toList_commaSeparated] using writes_map hall hdistinct

end Tree

/-! ### Trees in the heap -/

namespace Heap

variable {h g : Heap} {t : Tree}

mutual

/-- Every level of a tree takes a table. -/
theorem size_build (t : Tree) (path : List Address) (h : Heap) :
    h.size + t.depth ≤ (build t path h).2.size := by
  cases t with
  | list items =>
    have hitems := size_buildList items (h.size :: path) h.reserve.2
    simp only [build, size_set, Tree.depth]
    rw [size_reserve] at hitems
    change _ ≤ (buildList items (h.size :: path) h.reserve.2).2.size
    omega
  | map entries =>
    have hentries := size_buildEntries entries (h.size :: path) h.reserve.2
    simp only [build, size_set, Tree.depth]
    rw [size_reserve] at hentries
    change _ ≤ (buildEntries entries (h.size :: path) h.reserve.2).2.size
    omega
  | _ => exact (extends_build _ path h).size_le
termination_by structural t

theorem size_buildList (ts : List Tree) (path : List Address) (h : Heap) :
    h.size + Tree.depthList ts ≤ (buildList ts path h).2.size := by
  cases ts with
  | nil => exact Nat.le_refl _
  | cons t ts =>
    have hhead := size_build t path h
    have htail := size_buildList ts path (build t path h).2
    simp only [buildList, Tree.depthList]
    omega
termination_by structural ts

theorem size_buildEntries (es : List (Key × Tree)) (path : List Address) (h : Heap) :
    h.size + Tree.depthEntries es ≤ (buildEntries es path h).2.size := by
  cases es with
  | nil => exact Nat.le_refl _
  | cons e es =>
    obtain ⟨k, t⟩ := e
    have hkey := (h.extends_markKey k).size_le
    have hhead := size_build t path (h.markKey k).2
    have htail := size_buildEntries es path (build t path (h.markKey k).2).2
    simp only [buildEntries, Tree.depthEntries]
    omega
termination_by structural es

end

/-- What is built up from a tree below a path is pictured by it, whatever has become of the rest of
the heap. -/
def Pictures (g : Heap) (t : Tree) : Prop :=
  ∀ (path : List Address) (h : Heap) (depth : Nat), AgreesFrom h.size (build t path h).2 g →
    (∀ a ∈ path, a < h.size) → t.depth ≤ depth → g.unfold depth path (build t path h).1 = t

theorem unfold_buildList_eq {ts : List Tree} (hts : ∀ t ∈ ts, g.Pictures t) (path : List Address)
    (h : Heap) (depth : Nat) (hg : AgreesFrom h.size (buildList ts path h).2 g)
    (hpath : ∀ a ∈ path, a < h.size) (hdepth : Tree.depthList ts ≤ depth) :
    (buildList ts path h).1.map (g.unfold depth path) = ts := by
  induction ts generalizing h with
  | nil => rfl
  | cons t ts ih =>
    obtain ⟨ht, hts⟩ := List.forall_mem_cons.1 hts
    obtain ⟨hdepth, hdepths⟩ := Nat.max_le.1 hdepth
    have hsize := (extends_build t path h).size_le
    have hhead := ht path h depth (hg.before (extends_buildList ts path _)) hpath hdepth
    have htail := ih hts (build t path h).2 (hg.mono hsize)
      (fun a ha => Nat.lt_of_lt_of_le (hpath a ha) hsize) hdepths
    simp only [buildList, List.map_cons, hhead, htail]

theorem unfold_buildEntries_eq {es : List (Key × Tree)} (hkeys : ∀ e ∈ es, ∃ s, e.1 = .text s)
    (hes : ∀ e ∈ es, g.Pictures e.2) (path : List Address) (h : Heap) (depth : Nat)
    (hg : AgreesFrom h.size (buildEntries es path h).2 g) (hpath : ∀ a ∈ path, a < h.size)
    (hdepth : Tree.depthEntries es ≤ depth) :
    (buildEntries es path h).1.map (fun (k, v) => (k, g.unfold depth path v)) = es := by
  induction es generalizing h with
  | nil => rfl
  | cons e es ih =>
    obtain ⟨k, t⟩ := e
    obtain ⟨ht, htrees⟩ := List.forall_mem_cons.1 hes
    obtain ⟨⟨s, rfl⟩, htexts⟩ := List.forall_mem_cons.1 hkeys
    obtain ⟨hdepth, hdepths⟩ := Nat.max_le.1 hdepth
    have hsize := (extends_build t path h).size_le
    have hhead := ht path h depth (hg.before (extends_buildEntries es path _)) hpath hdepth
    have htail := ih htexts htrees (build t path h).2 (hg.mono hsize)
      (fun a ha => Nat.lt_of_lt_of_le (hpath a ha) hsize) hdepths
    simp only [buildEntries, markKey, List.map_cons, hhead, htail]

section

variable {a : Address} {path : List Address} {depth : Nat}

theorem findIdx?_of_lt (hpath : ∀ b ∈ path, b < a) : path.findIdx? (· == a) = none := by
  rw [List.findIdx?_eq_none_iff]
  intro b hb
  exact beq_false_of_ne (Nat.ne_of_lt (hpath b hb))

theorem unfold_array_eq {items : List Value} (hpath : ∀ b ∈ path, b < a)
    (hget : g.get a = .array items) :
    g.unfold (depth + 1) path (.table a) = .list (items.map (g.unfold depth (a :: path))) := by
  simp only [unfold, findIdx?_of_lt hpath, hget]

theorem unfold_map_eq {entries : Dict Key Value} (hpath : ∀ b ∈ path, b < a)
    (hget : g.get a = .map entries) :
    g.unfold (depth + 1) path (.table a) =
      .map (entries.entries.map fun (k, v) => (k, g.unfold depth (a :: path) v)) := by
  simp only [unfold, findIdx?_of_lt hpath, hget]

end

theorem pictures_of_plain (ht : t.Plain) (g : Heap) : g.Pictures t := by
  induction ht with
  | @list items _ ih =>
    intro path h depth hg hpath hdepth
    obtain ⟨depth, rfl⟩ := Nat.exists_eq_add_of_le' (Nat.le_trans (Nat.le_add_left 1 _) hdepth)
    obtain ⟨hget, hg⟩ := hg.filled (extends_buildList items (h.size :: path) h.reserve.2)
    have hitems := unfold_buildList_eq ih (h.size :: path) h.reserve.2 depth hg (lt_reserve hpath)
      (Nat.le_of_succ_le_succ hdepth)
    exact (unfold_array_eq hpath hget).trans (congrArg Tree.list hitems)
  | @map entries hdistinct hkeys _ ih =>
    intro path h depth hg hpath hdepth
    obtain ⟨depth, rfl⟩ := Nat.exists_eq_add_of_le' (Nat.le_trans (Nat.le_add_left 1 _) hdepth)
    obtain ⟨hget, hg⟩ := hg.filled (extends_buildEntries entries (h.size :: path) h.reserve.2)
    have hkeys : ∀ e ∈ entries, ∃ s, e.1 = .text s := fun e he =>
      (hkeys e he).imp fun _ hs => hs.2
    have hentries := unfold_buildEntries_eq hkeys ih (h.size :: path) h.reserve.2 depth hg
      (lt_reserve hpath) (Nat.le_of_succ_le_succ hdepth)
    -- The keys are those of the tree, so that none of the pairs is lost in the dictionary.
    have hpairs : Dict.Distinct (buildEntries entries (h.size :: path) h.reserve.2).1 := by
      rw [← hentries] at hdistinct
      exact List.pairwise_map.1 hdistinct
    rw [← Dict.entries_ofList hpairs] at hentries
    exact (unfold_map_eq hpath hget).trans (congrArg Tree.map hentries)
  | _ =>
    intro path h depth _ _ _
    cases depth <;> rfl

theorem tree_store_eq (ht : t.Plain) (h : Heap) : (h.store t).2.tree (h.store t).1 = t := by
  have hsize := size_build t [] h
  refine pictures_of_plain ht _ [] h _ (fun _ _ _ => rfl) (by simp) ?_
  change t.depth ≤ (build t [] h).2.size + 1
  omega

end Heap

end NodeScript
