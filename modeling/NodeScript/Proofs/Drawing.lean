import NodeScript.Display
import NodeScript.Proofs.Showing
import NodeScript.Proofs.Spans

/-!
Drawn graphs. Read from top to bottom, an outline has one row for each instruction, in their order,
whatever blocks are open or closed. If no terminator and no `else` is without its block, then each
row stands as deep as its instruction is nested, and rows hang only under what opens a block.
-/

namespace NodeScript

/-! ### Rows -/

/-- A label of an outline with its depth, and with how many labels hang directly under it. -/
structure Outline.Row where
  depth : Nat
  label : String
  children : Nat

namespace Outline

mutual

/-- The rows of an outline from top to bottom. -/
def rows (depth : Nat) : Outline → List Row
  | .node label children => ⟨depth, label, children.length⟩ :: rowsOf (depth + 1) children
termination_by structural o => o

def rowsOf (depth : Nat) : List Outline → List Row
  | [] => []
  | o :: os => o.rows depth ++ rowsOf depth os
termination_by structural os => os

end

theorem rowsOf_append (depth : Nat) (os os' : List Outline) :
    rowsOf depth (os ++ os') = rowsOf depth os ++ rowsOf depth os' := by
  induction os with
  | nil => rfl
  | cons o os ih => rw [List.cons_append, rowsOf, rowsOf, ih, List.append_assoc]

/-- Where a row stands and what it says. -/
def Row.heading (r : Row) : Nat × String :=
  (r.depth, r.label)

/-- Under a row with something below it, the next row is one level deeper. -/
def Indented : List Row → Prop
  | [] => True
  | r :: rs => (r.children ≠ 0 → ∃ next ∈ rs.head?, next.depth = r.depth + 1) ∧ Indented rs

theorem Indented.append {rs rs' : List Row} (h : Indented rs) (h' : Indented rs') :
    Indented (rs ++ rs') := by
  induction rs with
  | nil => exact h'
  | cons r rs ih =>
    refine ⟨fun hr => ?_, ih h.2⟩
    obtain ⟨next, hnext, hdepth⟩ := h.1 hr
    exact ⟨next, List.mem_head?_append_of_mem_head? hnext, hdepth⟩

theorem head?_rowsOf (depth : Nat) {os : List Outline} (h : os.length ≠ 0) :
    ∃ r ∈ (rowsOf depth os).head?, r.depth = depth := by
  cases os with
  | nil => exact absurd rfl h
  | cons o os =>
    obtain ⟨label, children⟩ := o
    exact ⟨⟨depth, label, children.length⟩, rfl, rfl⟩

mutual

theorem indented_rows (depth : Nat) (o : Outline) : Indented (o.rows depth) := by
  cases o with
  | node label children =>
    exact ⟨head?_rowsOf (depth + 1), indented_rowsOf (depth + 1) children⟩
termination_by structural o

theorem indented_rowsOf (depth : Nat) (os : List Outline) : Indented (rowsOf depth os) := by
  cases os with
  | nil => trivial
  | cons o os => exact (indented_rows depth o).append (indented_rowsOf depth os)
termination_by structural os

end

theorem Indented.next {rs : List Row} (h : Indented rs) {k : Nat} {r : Row} (hr : rs[k]? = some r)
    (hchildren : r.children ≠ 0) : ∃ next, rs[k + 1]? = some next ∧ next.depth = r.depth + 1 := by
  induction rs generalizing k with
  | nil => cases hr
  | cons r' rs ih =>
    cases k with
    | zero =>
      cases hr
      obtain ⟨next, hnext, hdepth⟩ := h.1 hchildren
      exact ⟨next, by rw [← Option.mem_def.1 hnext, List.head?_eq_getElem?]; rfl, hdepth⟩
    | succ k => exact ih h.2 hr

end Outline

/-! ### Levels -/

namespace Block

/-- The level of an instruction if so many blocks are open before it. -/
def ownLevel (opened : Nat) (m : Mark) : Nat :=
  if endsBody m then opened - 1 else opened

/-- There is nothing that the mark could close. -/
def isStray (opened : Nat) (m : Mark) : Bool :=
  endsBody m && opened == 0

/-- How many blocks are open after the mark. -/
def nextLevel (opened : Nat) (m : Mark) : Nat :=
  if startsBody m && !isStray opened m then ownLevel opened m + 1 else ownLevel opened m

/-- How many blocks are open after all the marks, whatever their kinds. -/
def levelAfter (opened : Nat) (ms : List Mark) : Nat :=
  ms.foldl nextLevel opened

variable {m : Mark} {ms : List Mark} {opened opened' : List BlockKind} {depth : Nat}

/-- A mark that finds its block. -/
theorem openAfterMark_length (ho : openAfterMark opened m = some opened') :
    isStray opened.length m = false ∧
      opened'.length = nextLevel opened.length m := by
  cases m with
  | none =>
    cases ho
    exact ⟨rfl, rfl⟩
  | some control =>
    cases control with
    | branch | whileLoop | numericFor | genericFor | breakLoop | giveBack | call =>
      cases ho
      exact ⟨rfl, rfl⟩
    | endBranch | endWhile | endNumericFor | endGenericFor =>
      obtain ⟨hhead, ho⟩ := Option.ite_none_right_eq_some.1 ho
      cases opened with
      | nil => cases hhead
      | cons top outer =>
        cases ho
        exact ⟨rfl, rfl⟩
    | otherwise =>
      obtain ⟨hhead, ho⟩ := Option.ite_none_left_eq_some.1 ho
      cases opened with
      | nil => exact absurd rfl hhead
      | cons top outer =>
        cases ho
        exact ⟨rfl, rfl⟩

theorem depths_cons (hstray : isStray depth m = false) :
    depths depth (m :: ms) =
      ownLevel depth m :: depths (nextLevel depth m) ms := by
  rw [depths, nextLevel, hstray, Bool.not_false, Bool.and_true]
  rfl

/-- If all marks find their blocks, then counting open blocks is enough to tell the depths. -/
theorem depths_of_openAfter (ho : (openAfter opened ms).isSome = true) {k : Nat}
    (hm : ms[k]? = some m) :
    isStray (levelAfter opened.length (ms.take k)) m = false ∧
      (depths opened.length ms)[k]? = some (ownLevel (levelAfter opened.length (ms.take k)) m) := by
  induction ms generalizing opened k with
  | nil => cases hm
  | cons m' ms ih =>
    rw [openAfter_cons] at ho
    cases hopened : openAfterMark opened m' with
    | none =>
      rw [hopened] at ho
      cases ho
    | some opened' =>
      rw [hopened] at ho
      obtain ⟨hstray, hlength⟩ := openAfterMark_length hopened
      rw [depths_cons hstray]
      cases k with
      | zero =>
        cases hm
        exact ⟨hstray, rfl⟩
      | succ k =>
        rw [List.take_succ_cons, levelAfter, List.foldl_cons, ← hlength]
        exact ih ho hm

/-- Nothing but an opener or an `else` leads deeper. -/
theorem depths_le {k a b : Nat} (ha : (depths depth ms)[k]? = some a)
    (hb : (depths depth ms)[k + 1]? = some b) (hm : ms[k]? = some m) (hstart : startsBody m = false) :
    b ≤ a := by
  induction ms generalizing depth k with
  | nil => cases hm
  | cons m' ms ih =>
    cases k with
    | zero =>
      cases hm
      cases ms with
      | nil => cases hb
      | cons m' ms =>
        rw [depths, hstart] at ha hb
        cases ha
        cases hb
        rw [if_neg Bool.false_ne_true]
        split
        · exact Nat.sub_le _ 1
        · exact Nat.le_refl _
    | succ k => exact ih ha hb hm

end Block

namespace Display

open Outline

/-! ### Labels -/

/-- The configuration of an instruction can be shown, lists apart. -/
def Drawable (h : Heap) (i : Instruction) : Prop :=
  ∀ e ∈ i.config.entries, (h.array? e.2).isSome = false → (h.tree e.2).Showable nestingLimit

theorem summaryParts_isOk_iff (h : Heap) (entries : List (String × Value)) :
    (∃ parts, summaryParts h entries = .ok parts) ↔
      ∀ e ∈ entries, (h.array? e.2).isSome = false → (h.tree e.2).Showable nestingLimit := by
  induction entries with
  | nil => exact iff_of_true ⟨_, rfl⟩ nofun
  | cons e entries ih =>
    obtain ⟨name, v⟩ := e
    rw [List.forall_mem_cons, ← ih, summaryParts]
    cases (h.array? v).isSome with
    | true => simp
    | false =>
      simp only [Bool.false_eq_true, if_false, exists_ok_bind, exists_ok_pure, and_true,
        exists_and_right, forall_const]
      exact and_congr_left' (Tree.jsonOrDisplay_isOk_iff _ _)

theorem instructionLabel_isOk_iff (h : Heap) (i : Instruction) (index : Nat) :
    (∃ label, instructionLabel h i index = .ok label) ↔ Drawable h i := by
  simp only [instructionLabel, configSummary, exists_ok_bind, exists_ok_pure, and_true]
  exact summaryParts_isOk_iff h i.config.entries

/-! ### Drawings in progress -/

namespace OpenNode

def headings (depth : Nat) (n : OpenNode) : List (Nat × String) :=
  (depth, n.label) :: (rowsOf (depth + 1) n.children.reverse).map Row.heading

theorem headings_close (depth : Nat) (n : OpenNode) :
    (n.close.rows depth).map Row.heading = n.headings depth := rfl

theorem headings_add (depth : Nat) (n : OpenNode) (o : Outline) :
    (n.add o).headings depth = n.headings depth ++ (o.rows (depth + 1)).map Row.heading := by
  simp only [headings, add, List.reverse_cons, rowsOf_append, rowsOf, List.append_nil,
    List.map_append, List.cons_append]

end OpenNode

/-- The headings of open nodes, the innermost first. -/
def openHeadings : List OpenNode → List (Nat × String)
  | [] => []
  | n :: ns => openHeadings ns ++ n.headings ns.length

namespace Drawing

/-- The headings of what is drawn so far, from top to bottom. -/
def headings (d : Drawing) : List (Nat × String) :=
  openHeadings (d.top :: d.below)

theorem headings_add (d : Drawing) (o : Outline) :
    (d.add o).headings = d.headings ++ (o.rows (d.below.length + 1)).map Row.heading := by
  rw [headings, headings, add, openHeadings, openHeadings, OpenNode.headings_add,
    List.append_assoc]

theorem headings_openBlock (d : Drawing) (label : String) :
    (d.openBlock label).headings = d.headings ++ [(d.below.length + 1, label)] := rfl

theorem headings_closeTop (d : Drawing) : d.closeTop.headings = d.headings := by
  obtain ⟨top, below⟩ := d
  cases below with
  | nil => rfl
  | cons n ns =>
    simp only [closeTop, headings, openHeadings, OpenNode.headings_add, OpenNode.headings_close,
      List.append_assoc, List.length_cons]

theorem length_closeTop (d : Drawing) : d.closeTop.below.length = d.below.length - 1 := by
  obtain ⟨top, below⟩ := d
  cases below <;> rfl

theorem headings_of_close (d : Drawing) : (d.close.rows 0).map Row.heading = d.headings := by
  obtain ⟨top, below⟩ := d
  induction below generalizing top with
  | nil => exact OpenNode.headings_close 0 top
  | cons n ns ih =>
    calc ((close ⟨top, n :: ns⟩).rows 0).map Row.heading
        = ((close ⟨n.add top.close, ns⟩).rows 0).map Row.heading := rfl
      _ = (closeTop ⟨top, n :: ns⟩).headings := ih _
      _ = headings ⟨top, n :: ns⟩ := headings_closeTop _

end Drawing

/-! ### Instructions -/

namespace Drawing

variable (d : Drawing) (i : Instruction) (index : Nat) (label : String)

theorem addInstruction_headings :
    (d.addInstruction i index label).headings = d.headings ++
      [(Block.ownLevel d.below.length i.control + 1,
        if Block.isStray d.below.length i.control then strayLabel i index else label)] ∧
    (d.addInstruction i index label).below.length = Block.nextLevel d.below.length i.control := by
  have hguard : (Block.endsBody i.control && d.below.isEmpty) =
      Block.isStray d.below.length i.control := by
    rw [Block.isStray]
    cases d.below <;> rfl
  by_cases hstray : Block.isStray d.below.length i.control = true
  · obtain ⟨hends, hzero⟩ := Bool.and_eq_true_iff.1 hstray
    have hlevel : Block.ownLevel d.below.length i.control = d.below.length := by
      rw [Block.ownLevel, if_pos hends, eq_of_beq hzero]
    rw [addInstruction, hguard, if_pos hstray, if_pos hstray, Block.nextLevel, hstray, Bool.not_true,
      Bool.and_false, hlevel]
    exact ⟨d.headings_add _, rfl⟩
  · rw [addInstruction, hguard, if_neg hstray, if_neg hstray, Block.nextLevel, Bool.eq_false_iff.2 hstray,
      Bool.not_false, Bool.and_true]
    -- the block that ends here is closed first
    have hclosed : ∃ d' : Drawing, (if Block.endsBody i.control then d.closeTop else d) = d' ∧
        d'.headings = d.headings ∧ d'.below.length = Block.ownLevel d.below.length i.control := by
      rw [Block.ownLevel]
      split
      · exact ⟨_, rfl, d.headings_closeTop, d.length_closeTop⟩
      · exact ⟨_, rfl, rfl, rfl⟩
    obtain ⟨d', hd', hheadings, hlength⟩ := hclosed
    dsimp only
    rw [hd', ← hheadings, ← hlength]
    split
    · exact ⟨d'.headings_openBlock label, rfl⟩
    · exact ⟨d'.headings_add _, rfl⟩

end Drawing

/-- The headings of instructions from `index` on, if so many blocks are open before them. -/
inductive Listed (h : Heap) : (index opened : Nat) → List Instruction → List (Nat × String) → Prop
  | nil {index opened : Nat} : Listed h index opened [] []
  | cons {index opened : Nat} {i : Instruction} {is : List Instruction} {label : String}
      {rows : List (Nat × String)} (hlabel : instructionLabel h i index = .ok label)
      (hrest : Listed h (index + 1) (Block.nextLevel opened i.control) is rows) :
      Listed h index opened (i :: is)
        ((Block.ownLevel opened i.control + 1,
          if Block.isStray opened i.control then strayLabel i index else label) :: rows)

variable {h : Heap} {index opened k : Nat} {i : Instruction} {is : List Instruction}
  {listed : List (Nat × String)}

/-- Drawing succeeds if all labels can be made, and adds one heading for each instruction. -/
theorem drawInstructions_listed (hdraw : ∀ i ∈ is, Drawable h i) (index : Nat) (d : Drawing) :
    ∃ d' listed, drawInstructions h index is d = .ok d' ∧
      Listed h index d.below.length is listed ∧ d'.headings = d.headings ++ listed := by
  induction is generalizing index d with
  | nil => exact ⟨d, [], rfl, .nil, (List.append_nil _).symm⟩
  | cons i is ih =>
    obtain ⟨hi, hdraw⟩ := List.forall_mem_cons.1 hdraw
    obtain ⟨label, hlabel⟩ := (instructionLabel_isOk_iff h i index).2 hi
    obtain ⟨hheadings, hlength⟩ := d.addInstruction_headings i index label
    obtain ⟨d', listed, hd', hlisted, hd'listed⟩ :=
      ih hdraw (index + 1) (d.addInstruction i index label)
    refine ⟨d', _, ?_, .cons hlabel (hlength ▸ hlisted), ?_⟩
    · simp only [drawInstructions, hlabel, bind, Except.bind, hd']
    · rw [hd'listed, hheadings, List.append_assoc, List.singleton_append]

theorem drawable_of_drawInstructions {d d' : Drawing} (hd : drawInstructions h index is d = .ok d') :
    ∀ i ∈ is, Drawable h i := by
  induction is generalizing index d with
  | nil => exact nofun
  | cons i is ih =>
    rw [drawInstructions] at hd
    cases hlabel : instructionLabel h i index with
    | error f =>
      rw [hlabel] at hd
      cases hd
    | ok label =>
      rw [hlabel] at hd
      exact List.forall_mem_cons.2 ⟨(instructionLabel_isOk_iff h i index).1 ⟨label, hlabel⟩, ih hd⟩

theorem Listed.length_eq (hl : Listed h index opened is listed) : listed.length = is.length := by
  induction hl with
  | nil => rfl
  | cons _ _ ih => rw [List.length_cons, List.length_cons, ih]

/-- The heading of an instruction depends on how many blocks are open before it. -/
theorem Listed.heading (hl : Listed h index opened is listed) (hi : is[k]? = some i)
    {row : Nat × String} (hrow : listed[k]? = some row) :
    ∃ label, instructionLabel h i (index + k) = .ok label ∧
      row.1 = Block.ownLevel
        (Block.levelAfter opened ((is.map Instruction.control).take k)) i.control + 1 ∧
      row.2 = if Block.isStray
          (Block.levelAfter opened ((is.map Instruction.control).take k)) i.control
        then strayLabel i (index + k) else label := by
  induction hl generalizing k with
  | nil => cases hi
  | cons hlabel hrest ih =>
    cases k with
    | zero =>
      cases hi
      cases hrow
      exact ⟨_, hlabel, rfl, rfl⟩
    | succ k =>
      rw [Nat.add_comm k 1, ← Nat.add_assoc, Nat.add_comm 1 k]
      exact ih hi hrow

/-! ### Whole outlines -/

theorem getElem?_headings {rows : List Row} {row : Row} (hrow : rows[k]? = some row) :
    (rows.map Row.heading)[k]? = some (row.depth, row.label) := by
  rw [List.getElem?_map, hrow]
  rfl

theorem Listed.row {rows : List Row} (hl : Listed h 0 0 is (rows.map Row.heading)) {row : Row}
    (hi : is[k]? = some i) (hrow : rows[k]? = some row) :
    ∃ label, instructionLabel h i k = .ok label ∧
      row.depth = Block.ownLevel
        (Block.levelAfter 0 ((is.map Instruction.control).take k)) i.control + 1 ∧
      row.label = if Block.isStray
          (Block.levelAfter 0 ((is.map Instruction.control).take k)) i.control
        then strayLabel i k else label := by
  have hheading := hl.heading hi (getElem?_headings hrow)
  rwa [Nat.zero_add] at hheading

/-- Rows of a graph in which every mark finds its block. -/
theorem Listed.row_matched {rows : List Row} (hl : Listed h 0 0 is (rows.map Row.heading))
    (hmarks : Block.unmatched (is.map Instruction.control) = []) {row : Row}
    (hi : is[k]? = some i) (hrow : rows[k]? = some row) :
    instructionLabel h i k = .ok row.label ∧
      ((Block.depths 0 (is.map Instruction.control))[k]?).map (· + 1) = some row.depth := by
  obtain ⟨label, hlabel, hdepth, hshown⟩ := hl.row hi hrow
  have hmark : (is.map Instruction.control)[k]? = some i.control := by
    rw [List.getElem?_map, hi]
    rfl
  obtain ⟨hstray, hlevel⟩ :=
    Block.depths_of_openAfter (Block.strays_eq_nil_iff.1 hmarks) hmark
  rw [List.length_nil] at hstray hlevel
  rw [hstray, if_neg Bool.false_ne_true] at hshown
  rw [hlevel, hdepth, hshown]
  exact ⟨hlabel, rfl⟩

theorem Listed.startsBody {rows : List Row} (hl : Listed h 0 0 is (rows.map Row.heading))
    (hindented : Indented rows) (hmarks : Block.unmatched (is.map Instruction.control) = [])
    {row : Row} (hi : is[k]? = some i) (hrow : rows[k]? = some row) (hchildren : row.children ≠ 0) :
    Block.startsBody i.control = true := by
  -- the next row is deeper, so its instruction is nested deeper
  obtain ⟨next, hnext, hdeeper⟩ := hindented.next hrow hchildren
  have hlt : k + 1 < is.length := by
    rw [← hl.length_eq, List.length_map]
    exact (List.getElem?_eq_some_iff.1 hnext).1
  obtain ⟨-, hdepth⟩ := hl.row_matched hmarks hi hrow
  obtain ⟨-, hnextDepth⟩ := hl.row_matched hmarks (List.getElem?_eq_getElem hlt) hnext
  obtain ⟨a, ha, hrowDepth⟩ := Option.map_eq_some_iff.1 hdepth
  obtain ⟨b, hb, hnextDepth⟩ := Option.map_eq_some_iff.1 hnextDepth
  by_contra hstart
  have hle := Block.depths_le ha hb (by rw [List.getElem?_map, hi]; rfl) (Bool.eq_false_iff.2 hstart)
  omega

theorem outline_of_not_drawable {g : Graph} (title : String) (hi : i ∈ g.instructions)
    (hnot : ¬ Drawable h i) : ∃ f, outline h g title = .error f := by
  cases hdraw : drawInstructions h 0 g.instructions { top := { label := graphTitle g title } } with
  | error f => exact ⟨f, by rw [outline, hdraw]; rfl⟩
  | ok d => exact absurd (drawable_of_drawInstructions hdraw i hi) hnot

/-- There is an outline unless something in a configuration cannot be shown. It has a row for each
instruction, in their order, below the title; where nothing is open, a terminator or an `else` is
shown as unmatched. If none of them is without its block, then each row is as deep as its
instruction, and there are rows only below openers and `else`. -/
theorem outline_follows_blocks (h : Heap) (g : Graph) (title : String) :
    ((∃ i ∈ g.instructions, ¬ Drawable h i) → ∃ f, outline h g title = .error f) ∧
    ((∀ i ∈ g.instructions, Drawable h i) →
      ∃ children, outline h g title = .ok (.node (graphTitle g title) children) ∧
        (rowsOf 1 children).length = g.instructions.length ∧
        ∀ k i row, g.instructions[k]? = some i → (rowsOf 1 children)[k]? = some row →
          (∃ label, instructionLabel h i k = .ok label ∧
            row.depth = Block.ownLevel (Block.levelAfter 0 (g.marks.take k)) i.control + 1 ∧
            row.label = if Block.isStray (Block.levelAfter 0 (g.marks.take k)) i.control
              then strayLabel i k else label) ∧
          (Block.unmatched g.marks = [] →
            instructionLabel h i k = .ok row.label ∧
            ((Block.depths 0 g.marks)[k]?).map (· + 1) = some row.depth ∧
            (row.children ≠ 0 → Block.startsBody i.control = true))) := by
  constructor
  · rintro ⟨i, hi, hnot⟩
    exact outline_of_not_drawable title hi hnot
  · intro hdraw
    obtain ⟨d, listed, hd, hlisted, hheadings⟩ :=
      drawInstructions_listed hdraw 0 { top := { label := graphTitle g title } }
    obtain ⟨label, children, hclose⟩ : ∃ label children, d.close = .node label children := by
      cases d.close with
      | node label children => exact ⟨label, children, rfl⟩
    have hrows : ((Outline.node label children).rows 0).map Row.heading =
        (0, graphTitle g title) :: listed := by
      rw [← hclose, d.headings_of_close, hheadings]
      rfl
    obtain ⟨hroot, hbelow⟩ := List.cons.inj hrows
    obtain ⟨-, rfl⟩ := Prod.mk.inj hroot
    have hlisted : Listed h 0 0 g.instructions ((rowsOf 1 children).map Row.heading) := hbelow ▸ hlisted
    refine ⟨children, ?_, ?_, fun k i row hi hrow => ⟨?_, fun hmarks => ?_⟩⟩
    · rw [outline, hd, ← hclose]
      rfl
    · rw [← hlisted.length_eq, List.length_map]
    · exact hlisted.row hi hrow
    · obtain ⟨hlabel, hdepth⟩ := hlisted.row_matched hmarks hi hrow
      exact ⟨hlabel, hdepth, hlisted.startsBody (indented_rowsOf 1 children) hmarks hi hrow⟩

/-- One instruction, with an integer of one digit too many. -/
def longInteger : Graph where
  instructions := [{ tag := "print", config := .ofList [("x", .int (10 ^ digitLimit : Nat))] }]

/-- An integer in a configuration can keep a graph from being drawn at all. -/
theorem outline_longInteger :
    Block.unmatched longInteger.marks = [] ∧ ∃ f, outline {} longInteger "main" = .error f := by
  refine ⟨rfl, outline_of_not_drawable "main" (List.mem_singleton_self _) fun hdraw => ?_⟩
  have hshort := (hdraw _ (List.mem_singleton_self _) rfl).short _ (List.mem_singleton_self _)
  exact Nat.lt_irrefl _ hshort

end Display

end NodeScript
