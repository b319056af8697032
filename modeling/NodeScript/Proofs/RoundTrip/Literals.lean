import Mathlib
import NodeScript.Proofs.RoundTrip.Trees
import NodeScript.Value.Printer

/-!
Printing and reading back. The text that a script prints for a value is a literal of the value: as
it stands for nothing, truth values and integers, and between quote marks for tables. Between quote
marks every other text means itself.
-/

namespace NodeScript

open Text Number

namespace Literal

variable {room : Nat}

theorem read_nil : read room "nil" = .ok .nil := rfl

theorem read_bool (b : Bool) : read room (if b then "true" else "false") = .ok (.bool b) := by
  cases b <;> rfl

theorem trimChars_quoted (cs : List Char) :
    trimChars ('\'' :: (cs ++ ['\''])) = '\'' :: (cs ++ ['\'']) := by
  have hmark : isBlank '\'' = false := by decide
  simp [trimChars, hmark]

/-- No word begins with a quote mark. -/
theorem quoted_ne (word : String) (hword : word.toList.head? ≠ some '\'') (cs : List Char) :
    String.ofList (lowerChars ('\'' :: cs)) ≠ word := by
  rintro rfl
  rw [String.toList_ofList] at hword
  exact hword rfl

/-- Between quote marks nothing is trimmed, and nothing is a word or a number. -/
theorem read_quoted (room : Nat) (s : String) :
    read room ("'" ++ s ++ "'") = readQuoted room s.toList := by
  have hchars : ("'" ++ s ++ "'").toList = '\'' :: (s.toList ++ ['\'']) := by simp
  have hnumber : numberForm? ('\'' :: (s.toList ++ ['\''])) = none := rfl
  have hinner : unquoted? ('\'' :: (s.toList ++ ['\''])) = some s.toList := by
    simp [unquoted?, isQuoteMark]
  have htrue := quoted_ne "true" (by simp) (s.toList ++ ['\''])
  have hfalse := quoted_ne "false" (by simp) (s.toList ++ ['\''])
  have hnil := quoted_ne "nil" (by simp) (s.toList ++ ['\''])
  have hnull := quoted_ne "null" (by simp) (s.toList ++ ['\''])
  simp [read, hchars, trimChars_quoted, htrue, hfalse, hnil, hnull, hnumber, hinner]

theorem readQuoted_text {s : String} (hs : isBracketed s.toList = false) :
    readQuoted room s.toList = .ok (.text s) := by
  simp [readQuoted, hs]

theorem readQuoted_table {cs : List Char} {t : Tree} (hcs : isBracketed cs = true)
    (hwrites : Serial.Writes room cs t) : readQuoted room cs = .ok t := by
  have hspaces := hwrites.skipSpaces_append []
  have hvalue := hwrites.value (2 * cs.length + 2) [] (by omega) (by simp [Serial.Ends])
  rw [List.append_nil] at hspaces hvalue
  have hread : Serial.read room cs = .ok t := by
    rw [Serial.read, hspaces, hvalue]
    rfl
  simp [readQuoted, hcs, hread]

/-- Only the characters at the ends count. -/
theorem isBracketed_of_ends {first last : Char} (hends : isBracketed [first, last] = true)
    (cs : List Char) : isBracketed (first :: (cs ++ [last])) = true := by
  have hlast : (first :: (cs ++ [last])).getLast? = some last := by
    rw [← List.cons_append, List.getLast?_concat]
  unfold isBracketed
  rw [hlast]
  exact hends

end Literal

namespace Tree

variable {t : Tree} {room : Nat} {s : String}

/-- A tree that a table is pictured by. -/
def IsTable (t : Tree) : Prop :=
  (∃ items, t = .list items) ∨ ∃ entries, t = .map entries

/-- The serial form of a table stands in brackets. -/
theorem IsTable.isBracketed_json (ht : t.IsTable) (hs : t.json room = .ok s) :
    Literal.isBracketed s.toList = true := by
  obtain ⟨items, rfl⟩ | ⟨entries, rfl⟩ := ht
  · cases room with
    | zero => cases hs
    | succ room =>
      obtain ⟨parts, -, ⟨⟩⟩ := Serial.exists_of_bind hs
      have hends : Literal.isBracketed ['[', ']'] = true := rfl
      simpa [bracketed] using Literal.isBracketed_of_ends hends (commaSeparated parts).toList
  · cases room with
    | zero => cases hs
    | succ room =>
      obtain ⟨parts, -, ⟨⟩⟩ := Serial.exists_of_bind hs
      have hends : Literal.isBracketed ['\x7b', '\x7d'] = true := rfl
      simpa [braced] using Literal.isBracketed_of_ends hends (commaSeparated parts).toList

theorem IsTable.scriptText_eq (ht : t.IsTable) (hs : t.json room = .ok s) :
    t.scriptText room = .ok s := by
  have hshown : t.jsonOrDisplay room = .ok s := by
    simp [jsonOrDisplay, hs]
  obtain ⟨items, rfl⟩ | ⟨entries, rfl⟩ := ht
  · exact hshown
  · exact hshown

theorem IsTable.exists_store (ht : t.IsTable) (k : Heap) : ∃ b, (k.store t).1 = .table b := by
  obtain ⟨items, rfl⟩ | ⟨entries, rfl⟩ := ht
  · exact ⟨k.size, rfl⟩
  · exact ⟨k.size, rfl⟩

end Tree

namespace Heap

variable {h k : Heap} {room room' : Nat}

theorem tree_table (h : Heap) (a : Address) : (h.tree (.table a)).IsTable := by
  cases hget : h.get a with
  | array items => exact .inl ⟨_, unfold_array_eq (by simp) hget⟩
  | map entries => exact .inr ⟨_, unfold_map_eq (by simp) hget⟩

/-- Where a text is read as a tree, its literal is what is built up from the tree. -/
theorem literal_text {s : String} {t : Tree} (hs : Literal.read room s = .ok t) :
    k.literal room (.text s) = .ok (k.store t) := by
  simp [literal, hs]

/-- The serial form of a table, between quote marks, is a literal of the table. -/
theorem exists_literal_table {a : Address} (ht : (h.tree (.table a)).Plain)
    (hroom : (h.tree (.table a)).depth ≤ room) (hroom' : (h.tree (.table a)).depth ≤ room') :
    ∃ s b k', h.scriptText room (.table a) = .ok s ∧
      k.literal room' (.text ("'" ++ s ++ "'")) = .ok (.table b, k') ∧
      k'.tree (.table b) = h.tree (.table a) ∧ k.Extends k' := by
  have htable := tree_table h a
  obtain ⟨s, hs⟩ := ht.reread
  have hjson := (hs room hroom).1
  have hread : Literal.read room' ("'" ++ s ++ "'") = .ok (h.tree (.table a)) :=
    (Literal.read_quoted room' s).trans
      (Literal.readQuoted_table (htable.isBracketed_json hjson) (hs room' hroom').2)
  obtain ⟨b, hb⟩ := htable.exists_store k
  have htree := tree_store_eq ht k
  rw [hb] at htree
  refine ⟨s, b, (k.store (h.tree (.table a))).2, htable.scriptText_eq hjson, ?_, htree,
    extends_build _ _ k⟩
  rw [literal_text hread, ← hb]

/-- What a script prints for a value can be read back, also in another heap: nothing, truth values
and integers as they are printed, and plain tables, whose texts have no halves of pairs, between
quote marks, with their entries in the same order. Between quote marks a text without outer brackets
is read as it is. -/
theorem literals_read_back (h k : Heap) (room room' : Nat) :
    (∃ s, h.scriptText room .nil = .ok s ∧ k.literal room' (.text s) = .ok (.nil, k)) ∧
    (∀ b, ∃ s, h.scriptText room (.bool b) = .ok s ∧
      k.literal room' (.text s) = .ok (.bool b, k)) ∧
    (∀ n : Int, n.natAbs < 10 ^ digitLimit → ∃ s, h.scriptText room (.number (.int n)) = .ok s ∧
      k.literal room' (.text s) = .ok (.number (.int n), k) ∧
      (Value.text s).toNumber? = some (.int n)) ∧
    (∀ a, (h.tree (.table a)).Plain → (h.tree (.table a)).depth ≤ room →
      (h.tree (.table a)).depth ≤ room' → ∃ s b k', h.scriptText room (.table a) = .ok s ∧
        k.literal room' (.text ("'" ++ s ++ "'")) = .ok (.table b, k') ∧
        k'.tree (.table b) = h.tree (.table a) ∧ k.Extends k') ∧
    ∀ s : String, Literal.isBracketed s.toList = false →
      k.literal room' (.text ("'" ++ s ++ "'")) = .ok (.text s, k) := by
  refine ⟨⟨_, rfl, literal_text Literal.read_nil⟩, fun b => ⟨_, rfl, ?_⟩, fun n hn => ?_, ?_, ?_⟩
  · exact literal_text (Literal.read_bool b)
  · refine ⟨String.ofList (spelled n), integerText_eq hn, ?_, ?_⟩
    · exact literal_text (Literal.read_spelled room' hn)
    · rw [Value.toNumber?, ofText?_spelled hn]
  · intro a ht hroom hroom'
    exact exists_literal_table ht hroom hroom'
  · intro s hs
    exact literal_text ((Literal.read_quoted room' s).trans (Literal.readQuoted_text hs))

/-- A map whose texts have marks, a line break and a character that is written as two halves. -/
def keepsake : Tree :=
  .map [(.text "say \"hi\"\n", .list [.nil, .bool true, .int (-7), .text "𝄞'"]),
    (.text "", .map []), (.text "[", .list [])]

theorem oneDigit_lt {n : Int} (hn : n.natAbs < 10) : n.natAbs < 10 ^ digitLimit :=
  Nat.lt_of_lt_of_le hn (Nat.le_self_pow (by decide) 10)

theorem plain_keepsake : keepsake.Plain := by
  have hwhole {s : String} (hs : halfMark ∉ s.toList) : ∃ t, IsWhole t ∧ Key.text s = .text t :=
    ⟨s, isWhole_of_not_mem hs, rfl⟩
  refine .map ?_ ?_ ?_
  · unfold Dict.Distinct
    decide
  · simp only [List.forall_mem_cons, List.not_mem_nil, false_implies, implies_true, and_true]
    exact ⟨hwhole (by decide), hwhole (by decide), hwhole (by decide)⟩
  simp only [List.forall_mem_cons, List.not_mem_nil, false_implies, implies_true, and_true]
  refine ⟨.list ?_, .map .nil (by simp) (by simp), .list (by simp)⟩
  simp only [List.forall_mem_cons, List.not_mem_nil, false_implies, implies_true, and_true]
  exact ⟨.nil, .bool true, .int (oneDigit_lt (by decide)), .text (isWhole_of_not_mem (by decide))⟩

theorem keepsake_read_back :
    let h := (store {} keepsake).2
    (h.tree (.table 0) = keepsake ∧ keepsake.Plain ∧ keepsake.depth = 2 ∧
      ∃ s b k', h.scriptText 2 (.table 0) = .ok s ∧
        h.literal 2 (.text ("'" ++ s ++ "'")) = .ok (.table b, k') ∧
        k'.tree (.table b) = keepsake ∧ h.Extends k') ∧
    ((-7 : Int).natAbs < 10 ^ digitLimit ∧
      ∃ s, h.scriptText 2 (.number (.int (-7))) = .ok s ∧
        h.literal 2 (.text s) = .ok (.number (.int (-7)), h) ∧
        (Value.text s).toNumber? = some (.int (-7))) ∧
    (Literal.isBracketed "[ 1".toList = false ∧
      h.literal 2 (.text ("'" ++ "[ 1" ++ "'")) = .ok (.text "[ 1", h)) := by
  intro h
  have htree : h.tree (.table 0) = keepsake := tree_store_eq plain_keepsake {}
  have hdepth : keepsake.depth = 2 := rfl
  have hseven : (-7 : Int).natAbs < 10 ^ digitLimit := oneDigit_lt (by decide)
  have hopen : Literal.isBracketed "[ 1".toList = false := by decide
  obtain ⟨-, -, hint, htable, htext⟩ := literals_read_back h h 2 2
  have hread := htable 0
  rw [htree] at hread
  exact ⟨⟨htree, plain_keepsake, hdepth, hread plain_keepsake hdepth.le hdepth.le⟩,
    ⟨hseven, hint (-7) hseven⟩, hopen, htext "[ 1" hopen⟩

end Heap

end NodeScript
