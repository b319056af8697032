import NodeScript.Graph
import NodeScript.Proofs.Spans

/-!
The static check of a graph accepts exactly the grammar of blocks: terminators are matched by one
stack for all kinds, openers by one counter for each kind, and both together leave only nested
lists.
-/

namespace NodeScript

theorem Control.opens?_eq_some_iff {control : Control} {kind : BlockKind} :
    control.opens? = some kind ↔ control = kind.opener := by
  cases control <;> cases kind <;> simp [Control.opens?, BlockKind.opener]

namespace Graph

variable {marks : List Mark} {g : Graph}

theorem openerProblem?_eq_none_iff {index : Nat} :
    openerProblem? marks index = none ↔
      ∀ kind : BlockKind, marks[index]? = some (some kind.opener) →
        (Block.endAfter? marks kind index).isSome := by
  cases hm : marks[index]? with
  | none => simp [openerProblem?, hm]
  | some m =>
    cases m with
    | none => simp [openerProblem?, hm]
    | some control =>
      cases ho : control.opens? with
      | none =>
        have hne : ∀ kind : BlockKind, control ≠ kind.opener := by
          intro kind hk
          simp [Control.opens?_eq_some_iff.2 hk] at ho
        simp [openerProblem?, hm, ho, hne]
      | some kind =>
        have hk := Control.opens?_eq_some_iff.1 ho
        subst hk
        by_cases he : (Block.endAfter? marks kind index).isSome
        · simp [openerProblem?, hm, ho, he]
        · cases kind <;> simp_all [openerProblem?]

/-- No block problem: every opener is closed by a terminator of its kind, and no mark is stray. -/
theorem blockProblems_eq_nil_iff :
    g.blockProblems = [] ↔
      (∀ (kind : BlockKind) (index : Nat), g.marks[index]? = some (some kind.opener) →
        (Block.endAfter? g.marks kind index).isSome) ∧
      (Block.openAfter [] g.marks).isSome := by
  rw [blockProblems, List.append_eq_nil_iff, List.filterMap_eq_nil_iff, List.map_eq_nil_iff,
    Block.unmatched, Block.strays_eq_nil_iff]
  refine and_congr ?_ Iff.rfl
  constructor
  · intro h kind index hi
    have hlt := (List.getElem?_eq_some_iff.1 hi).1
    exact openerProblem?_eq_none_iff.1 (h index (List.mem_range.2 hlt)) kind hi
  · intro h index _
    exact openerProblem?_eq_none_iff.2 fun kind hi => h kind index hi

/-- An opener that is still open at the end has no terminator of its kind after it. -/
theorem endAfter?_eq_none_of_open {kind : BlockKind} {before body : List Mark}
    (hb : Block.Inside kind body) :
    Block.endAfter? (before ++ some kind.opener :: body) kind before.length = none := by
  have hdrop : (before ++ some kind.opener :: body).drop (before.length + 1) = body := by
    simp [List.drop_append]
  have hscan : Block.closing? kind 0 (body ++ []) = none := by
    rw [Block.closing?_inside hb]
    rfl
  simp only [Block.endAfter?, hdrop]
  simpa using hscan

theorem nested_of_blockProblems (h : g.blockProblems = []) : Block.Nested g.marks := by
  obtain ⟨hopeners, hopen⟩ := blockProblems_eq_nil_iff.1 h
  obtain ⟨final, hfinal⟩ := Option.isSome_iff_exists.1 hopen
  have hopening := Block.opening_of_openAfter (Block.Opening.start Block.Nested.empty) hfinal
  rw [List.nil_append] at hopening
  generalize g.marks = marks at hopeners hopening
  cases hopening with
  | start h => exact h
  | @opened kind _ before body _ hi =>
    -- The innermost block that is open at the end would have been reported.
    have hclosed := hopeners kind before.length (by simp)
    simp [endAfter?_eq_none_of_open hi] at hclosed

theorem blockProblems_eq_nil_iff_nested : g.blockProblems = [] ↔ Block.Nested g.marks := by
  refine ⟨nested_of_blockProblems, fun h => blockProblems_eq_nil_iff.2 ⟨?_, ?_⟩⟩
  · intro kind index hi
    obtain ⟨finish, hs⟩ := h.spans_of_opener hi
    simp [hs.endAfter]
  · simp [Block.openAfter_nested h]

/-- The check of a graph without parameters finds nothing exactly if its marks are derived from the
grammar of blocks. -/
theorem problems_eq_nil_iff_nested (hp : g.parameters = none) :
    g.problems = [] ↔ Block.Nested g.marks := by
  rw [problems, List.append_eq_nil_iff, blockProblems_eq_nil_iff_nested]
  simp [hp, parameterProblems, duplicates]

/-- Blocks that cross each other, each of which has a terminator of its kind. -/
def crossing : Graph where
  instructions :=
    [{ tag := "forNumeric" }, { tag := "if" }, { tag := "endFor" }, { tag := "endIf" }]

/-- Each counter is satisfied with these blocks, and yet they are not nested. -/
theorem crossing_not_nested :
    crossing.parameters = none ∧
      (∀ index < 4, openerProblem? crossing.marks index = none) ∧
      crossing.problems ≠ [] ∧ ¬ Block.Nested crossing.marks := by
  have hproblems : crossing.problems ≠ [] := by decide
  refine ⟨rfl, by decide, hproblems, fun h => hproblems ?_⟩
  exact (problems_eq_nil_iff_nested rfl).2 h

end Graph

end NodeScript
