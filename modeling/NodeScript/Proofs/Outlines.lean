import NodeScript.Proofs.Spans

/-!
Outlines: a nested list as a tree of blocks, in which each block has its own marks by construction.
The scans see one kind of block at a time and only its type tags; from the marks of a block they
find the other marks of the same block, at any depth.
-/

namespace NodeScript

/-- Whether `else` marks may divide the body of a block. -/
def BlockKind.isDivided : BlockKind → Bool
  | .branch => true
  | _ => false

namespace Block

/-- The blocks of a list as a tree, with or without `else` marks at its top. -/
inductive Outline : (divided : Bool) → Type
  | done {divided : Bool} : Outline divided
  | plain {divided : Bool} (m : Mark) (hm : isPlain m = true) (rest : Outline divided) :
      Outline divided
  | otherwise (rest : Outline true) : Outline true
  | block {divided : Bool} (kind : BlockKind) (body : Outline kind.isDivided)
      (rest : Outline divided) : Outline divided

/-- A block by the indices of its own marks. -/
structure Placed where
  kind : BlockKind
  start : Nat
  elses : List Nat
  finish : Nat
deriving DecidableEq, Repr

namespace Outline

variable {divided : Bool} {kind : BlockKind} {o : Outline divided} {b inner : Placed}
  {index e : Nat} {ms : List Mark}

def marks : {divided : Bool} → Outline divided → List Mark
  | _, done => []
  | _, plain m _ rest => m :: rest.marks
  | _, otherwise rest => some .otherwise :: rest.marks
  | _, block kind body rest =>
    some kind.opener :: (body.marks ++ some kind.terminator :: rest.marks)

def size (o : Outline divided) : Nat := o.marks.length

/-- The indices of the `else` marks at the top, if the list begins at `index`. -/
def elses : {divided : Bool} → Outline divided → (index : Nat) → List Nat
  | _, done, _ => []
  | _, plain _ _ rest, index => rest.elses (index + 1)
  | _, otherwise rest, index => index :: rest.elses (index + 1)
  | _, block _ body rest, index => rest.elses (index + body.size + 2)

/-- The blocks at any depth, if the list begins at `index`. -/
def blocks : {divided : Bool} → Outline divided → (index : Nat) → List Placed
  | _, done, _ => []
  | _, plain _ _ rest, index => rest.blocks (index + 1)
  | _, otherwise rest, index => rest.blocks (index + 1)
  | _, block kind body rest, index =>
    ⟨kind, index, body.elses (index + 1), index + body.size + 1⟩ ::
      (body.blocks (index + 1) ++ rest.blocks (index + body.size + 2))

@[simp] theorem size_done : (done : Outline divided).size = 0 := rfl

@[simp] theorem size_plain {m : Mark} {hm : isPlain m = true} : (plain m hm o).size = o.size + 1 :=
  rfl

@[simp] theorem size_otherwise {o : Outline true} : (otherwise o).size = o.size + 1 := rfl

@[simp] theorem size_block {body : Outline kind.isDivided} :
    (block kind body o).size = body.size + o.size + 2 := by
  simp [size, marks]
  omega

theorem mem_blocks_block {body : Outline kind.isDivided} :
    b ∈ (block kind body o).blocks index ↔
      b = ⟨kind, index, body.elses (index + 1), index + body.size + 1⟩ ∨
        b ∈ body.blocks (index + 1) ∨ b ∈ o.blocks (index + body.size + 2) := by
  simp [blocks]

/-! ### Outlines and the grammar -/

theorem inside_of_divided (hb : Inside .branch ms) (hn : kind.isDivided = false → Nested ms) :
    Inside kind ms := by
  cases kind with
  | branch => exact hb
  | whileLoop | numericFor | genericFor => exact .whole (hn rfl)

theorem inside_marks (o : Outline divided) :
    Inside .branch o.marks ∧ (divided = false → Nested o.marks) := by
  induction o with
  | done => exact ⟨.whole .empty, fun _ => .empty⟩
  | plain m hm rest ih =>
    have hn : Nested [m] := .plain hm .empty
    exact ⟨hn.append_inside ih.1, fun h => .plain hm (ih.2 h)⟩
  | otherwise rest ih => exact ⟨ih.1.after_else, fun h => by cases h⟩
  | block kind body rest ihb ih =>
    have hb := inside_of_divided ihb.1 ihb.2
    have hn : Nested (some kind.opener :: (body.marks ++ [some kind.terminator])) :=
      .block hb .empty
    exact ⟨by simpa [marks] using hn.append_inside ih.1, fun h => .block hb (ih.2 h)⟩

theorem inside_body (body : Outline kind.isDivided) : Inside kind body.marks :=
  inside_of_divided body.inside_marks.1 body.inside_marks.2

/-- Outlines are drawn of the nested lists, and of no others. -/
theorem nested_iff_exists_outline : Nested ms ↔ ∃ o : Outline false, o.marks = ms := by
  constructor
  · intro h
    -- A part of a list is drawn in front of what follows it.
    have hdrawn : ∀ divided (rest : Outline divided), ∃ o : Outline divided,
        o.marks = ms ++ rest.marks := by
      refine Nested.induct (P := fun ms => ∀ divided (rest : Outline divided),
          ∃ o : Outline divided, o.marks = ms ++ rest.marks)
        (Q := fun kind ms => ∃ o : Outline kind.isDivided, o.marks = ms) ?_ ?_ ?_ ?_ ?_ h
      · intro divided rest
        exact ⟨rest, rfl⟩
      · intro m ms hm ih divided rest
        obtain ⟨o, ho⟩ := ih divided rest
        exact ⟨plain m hm o, by simp [marks, ho]⟩
      · rintro kind _ ms ⟨body, rfl⟩ ih divided rest
        obtain ⟨o, ho⟩ := ih divided rest
        exact ⟨block kind body o, by simp [marks, ho]⟩
      · intro kind ms ih
        obtain ⟨o, ho⟩ := ih kind.isDivided done
        exact ⟨o, by simpa [marks] using ho⟩
      · rintro first _ ih ⟨rest, rfl⟩
        exact ih true (otherwise rest)
    obtain ⟨o, ho⟩ := hdrawn false done
    exact ⟨o, by simpa [marks] using ho⟩
  · rintro ⟨o, rfl⟩
    exact o.inside_marks.2 rfl

/-! ### Marks by their indices -/

theorem elses_bounds (he : e ∈ o.elses index) : index ≤ e ∧ e < index + o.size := by
  induction o generalizing index with
  | done => cases he
  | plain m hm rest ih =>
    have := ih he
    simp only [size_plain]
    omega
  | otherwise rest ih =>
    simp only [size_otherwise]
    obtain rfl | he := List.mem_cons.1 he
    · omega
    · have := ih he
      omega
  | block kind body rest _ ih =>
    have := ih he
    simp only [size_block]
    omega

theorem blocks_bounds (hb : b ∈ o.blocks index) :
    index ≤ b.start ∧ b.start < b.finish ∧ b.finish < index + o.size := by
  induction o generalizing index with
  | done => cases hb
  | plain m hm rest ih =>
    have := ih hb
    simp only [size_plain]
    omega
  | otherwise rest ih =>
    have := ih hb
    simp only [size_otherwise]
    omega
  | block kind body rest ihb ih =>
    simp only [size_block]
    obtain rfl | hb | hb := mem_blocks_block.1 hb
    · dsimp only
      omega
    · have := ihb hb
      omega
    · have := ih hb
      omega

/-- The `else` marks at the top stand outside of all blocks. -/
theorem elses_outside (he : e ∈ o.elses index) (hb : b ∈ o.blocks index) :
    e < b.start ∨ b.finish < e := by
  induction o generalizing index with
  | done => cases he
  | plain m hm rest ih => exact ih he hb
  | otherwise rest ih =>
    rw [blocks] at hb
    obtain rfl | he := List.mem_cons.1 he
    · have := blocks_bounds hb
      omega
    · exact ih he hb
  | block kind body rest ihb ih =>
    rw [elses] at he
    have hlow := (elses_bounds he).1
    obtain rfl | hb | hb := mem_blocks_block.1 hb
    · dsimp only
      omega
    · have := blocks_bounds hb
      omega
    · exact ih he hb

/-- Every opener belongs to one of the blocks. -/
theorem exists_block_of_opener {offset : Nat} (h : o.marks[offset]? = some (some kind.opener)) :
    ∃ b ∈ o.blocks index, b.kind = kind ∧ b.start = index + offset := by
  induction o generalizing index offset with
  | done => simp [marks] at h
  | plain m hm rest ih =>
    cases offset with
    | zero => exact absurd (by simpa [marks] using h) (isPlain_ne_opener hm kind)
    | succ offset =>
      obtain ⟨b, hb, hk, hs⟩ := @ih (index + 1) offset (by simpa [marks] using h)
      exact ⟨b, hb, hk, by omega⟩
  | otherwise rest ih =>
    cases offset with
    | zero => simp [marks] at h
    | succ offset =>
      obtain ⟨b, hb, hk, hs⟩ := @ih (index + 1) offset (by simpa [marks] using h)
      exact ⟨b, hb, hk, by omega⟩
  | block other body rest ihb ih =>
    cases offset with
    | zero =>
      obtain rfl : other = kind := by simpa [marks] using h
      exact ⟨_, mem_blocks_block.2 (Or.inl rfl), rfl, rfl⟩
    | succ offset =>
      rw [marks, List.getElem?_cons_succ] at h
      by_cases hlt : offset < body.size
      · rw [List.getElem?_append_left hlt] at h
        obtain ⟨b, hb, hk, hs⟩ := @ihb (index + 1) offset h
        exact ⟨b, mem_blocks_block.2 (Or.inr (Or.inl hb)), hk, by omega⟩
      · obtain ⟨offset, rfl⟩ := Nat.exists_eq_add_of_le (Nat.le_of_not_lt hlt)
        rw [size, List.getElem?_append_right (Nat.le_add_right ..), Nat.add_sub_cancel_left] at h
        cases offset with
        | zero => simp at h
        | succ offset =>
          obtain ⟨b, hb, hk, hs⟩ := @ih (index + body.size + 2) offset h
          exact ⟨b, mem_blocks_block.2 (Or.inr (Or.inr hb)), hk, by omega⟩

/-- What follows an `else` at the top is the rest of a branch. -/
theorem exists_rest_of_else (he : e ∈ o.elses index) :
    ∃ before rest, o.marks = before ++ some .otherwise :: rest ∧ Inside .branch rest ∧
      index + before.length = e := by
  induction o generalizing index with
  | done => cases he
  | plain m hm rest ih =>
    obtain ⟨before, behind, hmarks, hi, rfl⟩ := ih he
    exact ⟨m :: before, behind, by simp [marks, hmarks], hi, by simp; omega⟩
  | otherwise rest ih =>
    obtain rfl | he := List.mem_cons.1 he
    · exact ⟨[], rest.marks, rfl, rest.inside_marks.1, rfl⟩
    · obtain ⟨before, behind, hmarks, hi, rfl⟩ := ih he
      exact ⟨some .otherwise :: before, behind, by simp [marks, hmarks], hi, by simp; omega⟩
  | block kind body rest _ ih =>
    obtain ⟨before, behind, hmarks, hi, rfl⟩ := ih he
    refine ⟨some kind.opener :: (body.marks ++ some kind.terminator :: before), behind,
      by simp [marks, hmarks], hi, ?_⟩
    simp [size]
    omega

/-- The first part of a branch ends at its first `else`, or at its end. -/
theorem exists_first_part (o : Outline divided) (index : Nat) (after : List Mark) :
    ∃ first stop rest, Nested first ∧ (stop = .otherwise ∨ stop = .endBranch) ∧
      o.marks ++ some .endBranch :: after = first ++ some stop :: rest ∧
      index + first.length = (o.elses index).headD (index + o.size) := by
  induction o generalizing index with
  | done => exact ⟨[], .endBranch, after, .empty, Or.inr rfl, rfl, rfl⟩
  | plain m hm rest ih =>
    obtain ⟨first, stop, behind, hn, hstop, hmarks, hlen⟩ := ih (index + 1)
    refine ⟨m :: first, stop, behind, .plain hm hn, hstop, by simp [marks, hmarks], ?_⟩
    rw [elses, size_plain, List.length_cons, show index + (rest.size + 1) = index + 1 + rest.size by
      omega, ← hlen]
    omega
  | otherwise rest ih => exact ⟨[], .otherwise, _, .empty, Or.inl rfl, rfl, rfl⟩
  | block kind body rest _ ih =>
    obtain ⟨first, stop, behind, hn, hstop, hmarks, hlen⟩ := ih (index + body.size + 2)
    refine ⟨some kind.opener :: (body.marks ++ some kind.terminator :: first), stop, behind,
      .block body.inside_body hn, hstop, by simp [marks, hmarks], ?_⟩
    rw [elses, size_block, show index + (body.size + rest.size + 2) =
      index + body.size + 2 + rest.size by omega, ← hlen]
    simp [size]
    omega

/-! ### Blocks in their places -/

/-- A block in its place: what stands before it, inside of it and behind it. -/
structure Holds (o : Outline divided) (index : Nat) (b : Placed) (before : List Mark)
    (body : Outline b.kind.isDivided) (after : List Mark) : Prop where
  marks_eq : o.marks =
    before ++ some b.kind.opener :: (body.marks ++ some b.kind.terminator :: after)
  start_eq : b.start = index + before.length
  elses_eq : b.elses = body.elses (b.start + 1)
  finish_eq : b.finish = b.start + body.size + 1
  /-- The blocks that are opened inside of it are blocks of its body. -/
  inner : ∀ inner ∈ o.blocks index, b.start < inner.start → inner.start < b.finish →
    inner ∈ body.blocks (b.start + 1)

theorem exists_holds (hb : b ∈ o.blocks index) :
    ∃ before body after, o.Holds index b before body after := by
  induction o generalizing index with
  | done => cases hb
  | plain m hm rest ih =>
    obtain ⟨before, body, after, h⟩ := ih hb
    refine ⟨m :: before, body, after, by simp [marks, h.marks_eq], ?_, h.elses_eq, h.finish_eq,
      h.inner⟩
    rw [h.start_eq, List.length_cons]
    omega
  | otherwise rest ih =>
    obtain ⟨before, body, after, h⟩ := ih hb
    refine ⟨some .otherwise :: before, body, after, by simp [marks, h.marks_eq], ?_, h.elses_eq,
      h.finish_eq, h.inner⟩
    rw [h.start_eq, List.length_cons]
    omega
  | block kind body rest ihb ih =>
    obtain rfl | hb | hb := mem_blocks_block.1 hb
    · refine ⟨[], body, rest.marks, rfl, rfl, rfl, rfl, fun inner hinner hlow hhigh => ?_⟩
      dsimp only at hlow hhigh
      obtain rfl | hinner | hinner := mem_blocks_block.1 hinner
      · simp at hlow
      · exact hinner
      · have := blocks_bounds hinner
        omega
    · obtain ⟨before, inside, after, h⟩ := ihb hb
      have hbounds := blocks_bounds hb
      refine ⟨some kind.opener :: before, inside,
        after ++ some kind.terminator :: rest.marks, by simp [marks, h.marks_eq], ?_, h.elses_eq,
        h.finish_eq, fun inner hinner hlow hhigh => ?_⟩
      · rw [h.start_eq, List.length_cons]
        omega
      · obtain rfl | hinner | hinner := mem_blocks_block.1 hinner
        · dsimp only at hlow
          omega
        · exact h.inner inner hinner hlow hhigh
        · have := blocks_bounds hinner
          omega
    · obtain ⟨before, inside, after, h⟩ := ih hb
      have hbounds := blocks_bounds hb
      refine ⟨some kind.opener :: (body.marks ++ some kind.terminator :: before), inside, after,
        by simp [marks, h.marks_eq], ?_, h.elses_eq, h.finish_eq, fun inner hinner hlow hhigh => ?_⟩
      · rw [h.start_eq, size]
        simp
        omega
      · obtain rfl | hinner | hinner := mem_blocks_block.1 hinner
        · dsimp only at hlow
          omega
        · have := blocks_bounds hinner
          omega
        · exact h.inner inner hinner hlow hhigh

/-- Only branches have `else` marks. -/
theorem kind_of_else {body : Outline kind.isDivided} (he : e ∈ body.elses index) :
    kind = .branch := by
  have hnone : ∀ {divided} (o : Outline divided) (index : Nat), divided = false →
      o.elses index = [] := by
    intro divided o
    induction o with
    | done => exact fun _ _ => rfl
    | plain m hm rest ih => exact fun index => ih (index + 1)
    | otherwise rest => exact fun _ hd => by cases hd
    | block kind body rest _ ih => exact fun index => ih (index + body.size + 2)
  cases kind with
  | branch => rfl
  | whileLoop | numericFor | genericFor => simp [hnone body index rfl] at he

section Holds

variable {before after : List Mark} {body : Outline b.kind.isDivided}
  (h : o.Holds 0 b before body after)

include h

theorem Holds.spans : Spans o.marks b.kind b.start b.finish := by
  have hstart := h.start_eq
  have hfinish := h.finish_eq
  rw [size] at hfinish
  exact ⟨before, body.marks, after, h.marks_eq, body.inside_body, by omega, by omega⟩

/-- The scan from a branch stops at its own first `else`, or at its own end. -/
theorem Holds.elseOrEndAfter? (hk : b.kind = .branch) :
    elseOrEndAfter? o.marks b.start = some (b.elses.headD b.finish) := by
  obtain ⟨first, stop, rest, hn, hstop, hmarks, hlen⟩ :=
    body.exists_first_part (b.start + 1) after
  have hsplit : o.marks = before ++ some .branch :: (first ++ some stop :: rest) := by
    rw [h.marks_eq, ← hmarks]
    simp [hk, BlockKind.opener, BlockKind.terminator]
  have hstart : b.start = before.length := by simp [h.start_eq]
  have hfinish : b.finish = b.start + 1 + body.size := by
    rw [h.finish_eq]
    omega
  rw [h.elses_eq, hfinish, ← hlen, hsplit, hstart]
  exact elseOrEndAfter?_first before rest hn hstop

/-- The scan from an `else` of a branch finds the branch's own end. -/
theorem Holds.endAfter?_else (he : e ∈ b.elses) :
    o.marks[e]? = some (some .otherwise) ∧ endAfter? o.marks .branch e = some b.finish := by
  rw [h.elses_eq] at he
  obtain ⟨front, rest, hmarks, hi, hlen⟩ := exists_rest_of_else he
  have hsplit : o.marks = (before ++ some b.kind.opener :: front) ++
      some .otherwise :: (rest ++ some .endBranch :: after) := by
    rw [h.marks_eq, hmarks, kind_of_else he]
    simp [BlockKind.terminator]
  have hstart := h.start_eq
  have he' : e = (before ++ some b.kind.opener :: front).length := by
    simp
    omega
  have hfinish : b.finish =
      (before ++ some b.kind.opener :: front).length + 1 + rest.length := by
    rw [h.finish_eq, size, hmarks]
    simp
    omega
  rw [hsplit, he', hfinish]
  exact ⟨by simp, endAfter?_inside _ after _ hi⟩

end Holds

/-- The scans of a list lead from the marks of a block to its other marks: from the opener to the
terminator and, in a branch, to the first `else` or else to the terminator, and from each `else` to
the terminator. -/
structure Found (marks : List Mark) (b : Placed) : Prop where
  opener : marks[b.start]? = some (some b.kind.opener)
  terminator : marks[b.finish]? = some (some b.kind.terminator)
  elses : ∀ e ∈ b.elses, b.kind = .branch ∧ marks[e]? = some (some .otherwise)
  end_of_opener : endAfter? marks b.kind b.start = some b.finish
  first_of_opener : b.kind = .branch →
    elseOrEndAfter? marks b.start = some (b.elses.headD b.finish)
  end_of_else : ∀ e ∈ b.elses, endAfter? marks .branch e = some b.finish

/-- A place lies inside of a block, and outside of all blocks that are nested in it. -/
structure OwnPlace (o : Outline divided) (b : Placed) (target : Nat) : Prop where
  start_lt : b.start < target
  le_finish : target ≤ b.finish
  outside : ∀ inner ∈ o.blocks 0, b.start < inner.start → inner.start < b.finish →
    target < inner.start ∨ inner.finish < target

/-- In an outline every opener begins one of the blocks, and the scans find the own marks of every
block. What they find lies inside of the block and not in a block that is nested in it. -/
theorem scans_find_own_marks (o : Outline false) :
    (∀ (kind : BlockKind) (start : Nat), o.marks[start]? = some (some kind.opener) →
      ∃ b ∈ o.blocks 0, b.kind = kind ∧ b.start = start) ∧
    ∀ b ∈ o.blocks 0, Found o.marks b ∧ ∀ target ∈ b.finish :: b.elses, o.OwnPlace b target := by
  constructor
  · intro kind start hopen
    simpa using @exists_block_of_opener _ _ o 0 start hopen
  · intro b hb
    obtain ⟨before, body, after, h⟩ := exists_holds hb
    refine ⟨⟨h.spans.getElem_start, h.spans.getElem_finish, fun e he => ?_, h.spans.endAfter,
      h.elseOrEndAfter?, fun e he => (h.endAfter?_else he).2⟩, fun target ht => ?_⟩
    · exact ⟨kind_of_else (h.elses_eq ▸ he), (h.endAfter?_else he).1⟩
    · obtain rfl | he := List.mem_cons.1 ht
      · refine ⟨h.spans.start_lt, Nat.le_refl _, fun inner hinner hlow hhigh => Or.inr ?_⟩
        have hbounds := blocks_bounds (h.inner inner hinner hlow hhigh)
        have hfinish := h.finish_eq
        omega
      · rw [h.elses_eq] at he
        have hbounds := elses_bounds he
        have hfinish := h.finish_eq
        exact ⟨by omega, by omega, fun inner hinner hlow hhigh =>
          elses_outside he (h.inner inner hinner hlow hhigh)⟩

/-- A branch in three parts. In the first is a loop around another branch in three parts, and in the
second a loop of another kind. -/
def threeParts : Outline false :=
  .block .branch
    (.block .whileLoop (.block .branch (.otherwise (.otherwise .done)) .done)
      (.otherwise (.block .numericFor .done (.otherwise .done))))
    .done

theorem threeParts_found :
    (⟨.branch, 0, [7, 10], 11⟩ : Placed) ∈ threeParts.blocks 0 ∧
    elseOrEndAfter? threeParts.marks 0 = some 7 ∧
    (∀ index ∈ [0, 7, 10], endAfter? threeParts.marks .branch index = some 11) ∧
    ∀ inner ∈ threeParts.blocks 0, 0 < inner.start → inner.start < 11 →
      7 < inner.start ∨ inner.finish < 7 := by
  have hb : (⟨.branch, 0, [7, 10], 11⟩ : Placed) ∈ threeParts.blocks 0 := by decide
  obtain ⟨hfound, hplace⟩ := threeParts.scans_find_own_marks.2 _ hb
  refine ⟨hb, hfound.first_of_opener rfl, fun index hi => ?_, (hplace 7 (by decide)).outside⟩
  obtain rfl | he := List.mem_cons.1 hi
  · exact hfound.end_of_opener
  · exact hfound.end_of_else index he

end Outline

end Block

end NodeScript
