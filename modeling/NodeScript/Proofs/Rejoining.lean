import NodeScript.Proofs.LoopOrder
import NodeScript.Proofs.Spans

/-!
The two ways through a branch. The scan that skips the first part stops at an `else` or at an end;
the scan that skips the rest starts there. In every list, nested or not, both count the same
branches, so that whichever part is skipped control comes to the same end.
-/

namespace NodeScript

namespace Block

variable {marks ms : List Mark} {m : Mark} {depth depth' start stop : Nat} {found : Option Nat}

/-- What the scan for the end finds, given what the scan for an `else` or an end has found: nothing
either, the same end, or behind an `else` what a scan that begins there finds. -/
def Rejoins (depth : Nat) (ms : List Mark) : (found : Option Nat) → Prop
  | none => closing? .branch depth ms = none
  | some offset =>
    (ms[offset]? = some (some .endBranch) ∧ closing? .branch depth ms = some offset) ∨
    (ms[offset]? = some (some .otherwise) ∧ closing? .branch depth ms =
      (closing? .branch 0 (ms.drop (offset + 1))).map (· + (offset + 1)))

/-- A mark at which both scans go on moves what they find by one. -/
theorem Rejoins.cons (h : Rejoins depth' ms found)
    (hclose : closing? .branch depth (m :: ms) = (closing? .branch depth' ms).map (· + 1)) :
    Rejoins depth (m :: ms) (found.map (· + 1)) := by
  cases found with
  | none => exact hclose.trans (by simpa [Rejoins] using h)
  | some offset =>
    obtain ⟨hm, heq⟩ | ⟨hm, heq⟩ := h
    · exact Or.inl ⟨by simpa using hm, by simp [hclose, heq]⟩
    · refine Or.inr ⟨by simpa using hm, ?_⟩
      rw [hclose, heq, List.drop_succ_cons]
      cases closing? .branch 0 (ms.drop (offset + 1)) <;> simp
      omega

theorem rejoins (depth : Nat) (ms : List Mark) : Rejoins depth ms (elseOrClosing? depth ms) := by
  induction ms generalizing depth with
  | nil => rfl
  | cons m ms ih =>
    by_cases hb : m = some .branch
    · subst hb
      rw [elseOrClosing?_branch]
      exact (ih (depth + 1)).cons closing?_opener
    by_cases he : m = some .endBranch
    · subst he
      cases depth with
      | zero =>
        rw [elseOrClosing?_endBranch]
        exact Or.inl ⟨rfl, closing?_terminator⟩
      | succ depth =>
        rw [elseOrClosing?_endBranch_succ]
        exact (ih depth).cons closing?_terminator_succ
    -- All other marks are the same to the scan for the end; an `else` can stop the other one.
    have hskip : closing? .branch depth (m :: ms) = (closing? .branch depth ms).map (· + 1) :=
      closing?_skip hb he
    by_cases ho : m = some .otherwise
    · subst ho
      cases depth with
      | zero =>
        rw [elseOrClosing?_otherwise]
        exact Or.inr ⟨rfl, hskip⟩
      | succ depth =>
        rw [elseOrClosing?_otherwise_succ]
        exact (ih (depth + 1)).cons hskip
    · rw [elseOrClosing?_skip hb ho he]
      exact (ih depth).cons hskip

theorem endAfter?_of_elseOrEndAfter? (h : elseOrEndAfter? marks start = some stop) :
    marks[stop]? = some (some .endBranch) ∧ endAfter? marks .branch start = some stop ∨
    marks[stop]? = some (some .otherwise) ∧
      endAfter? marks .branch stop = endAfter? marks .branch start := by
  unfold elseOrEndAfter? at h
  split at h
  · obtain ⟨offset, hfound, rfl⟩ := Option.map_eq_some_iff.1 h
    have hrejoins := rejoins 0 (marks.drop (start + 1))
    have hshift : start + 1 + offset = offset + (start + 1) := Nat.add_comm ..
    rw [hfound, Rejoins, List.getElem?_drop, hshift] at hrejoins
    refine hrejoins.imp (fun ⟨hm, heq⟩ => ⟨hm, by simp [endAfter?, heq]⟩) ?_
    rintro ⟨hm, heq⟩
    refine ⟨hm, ?_⟩
    rw [endAfter?, endAfter?, heq, List.drop_drop, Option.map_map,
      show start + 1 + (offset + 1) = offset + (start + 1) + 1 by omega]
    congr 1
    funext found
    simp only [Function.comp_apply]
    omega
  · cases h

theorem exists_elseOrEndAfter? {finish : Nat} (hb : marks[start]? = some (some .branch))
    (h : endAfter? marks .branch start = some finish) :
    ∃ stop, elseOrEndAfter? marks start = some stop := by
  have hrejoins := rejoins 0 (marks.drop (start + 1))
  rw [elseOrEndAfter?, hb]
  cases hscan : elseOrClosing? 0 (marks.drop (start + 1)) with
  | some offset => exact ⟨_, rfl⟩
  | none =>
    rw [hscan, Rejoins] at hrejoins
    simp [endAfter?, hrejoins] at h

end Block

namespace Program

/-- In a list of any shape, let an `if` have an end of its kind. Then the scan that skips its first
part stops behind the `if` and not behind that end. It stops at the end itself, or at an `else` from
which the scan that skips the second part finds the same end, if there is one. So control that skips
either part of the branch comes out behind the same instruction. -/
theorem branches_rejoin (p : Program) {start : Nat}
    (hb : p.marks[start]? = some (some .branch)) :
    (∀ finish, Block.endAfter? p.marks .branch start = some finish →
      ∃ stop, Block.elseOrEndAfter? p.marks start = some stop ∧ start < stop ∧ stop ≤ finish) ∧
    ∀ stop, Block.elseOrEndAfter? p.marks start = some stop →
      (∀ c, p.next start .branch (.truth false) c = .ok (stop + 1) c) ∧
      (p.marks[stop]? = some (some .endBranch) ∧
          Block.endAfter? p.marks .branch start = some stop ∨
        p.marks[stop]? = some (some .otherwise) ∧
          Block.endAfter? p.marks .branch stop = Block.endAfter? p.marks .branch start ∧
          ∀ finish, Block.endAfter? p.marks .branch start = some finish →
            ∀ reply c, p.next stop .otherwise reply c = .ok (finish + 1) c) := by
  constructor
  · intro finish hend
    obtain ⟨stop, hstop⟩ := Block.exists_elseOrEndAfter? hb hend
    refine ⟨stop, hstop, (Block.elseOrEndAfter?_bounds hstop).1, ?_⟩
    obtain ⟨-, heq⟩ | ⟨-, heq⟩ := Block.endAfter?_of_elseOrEndAfter? hstop
    · exact (Option.some.inj (heq.symm.trans hend)).le
    · exact (Block.endAfter?_bounds (heq.trans hend)).1.le
  · intro stop hstop
    refine ⟨fun c => by simp only [next, hstop]; rfl, ?_⟩
    obtain hends | ⟨hm, heq⟩ := Block.endAfter?_of_elseOrEndAfter? hstop
    · exact Or.inl hends
    · refine Or.inr ⟨hm, heq, fun finish hend reply c => ?_⟩
      simp only [next, blockEnd, heq.trans hend]
      rfl

/-- A branch that crosses a loop, with an `else` inside of the loop and one behind both. -/
def crossed : Program :=
  .ofInstructions
    [{ tag := "if" }, { tag := "while" }, { tag := "else" }, { tag := "if" }, { tag := "else" },
     { tag := "endIf" }, { tag := "endIf" }, { tag := "endWhile" }, { tag := "else" }]

theorem crossed_rejoins :
    Block.unmatched crossed.marks ≠ [] ∧
    crossed.marks[0]? = some (some .branch) ∧
    Block.endAfter? crossed.marks .branch 0 = some 6 ∧
    (∀ c, crossed.next 0 .branch (.truth false) c = .ok 3 c) ∧
    ∀ reply c, crossed.next 2 .otherwise reply c = .ok 7 c := by
  have hb : crossed.marks[0]? = some (some .branch) := by decide
  have hend : Block.endAfter? crossed.marks .branch 0 = some 6 := by decide
  have hstop : Block.elseOrEndAfter? crossed.marks 0 = some 2 := by decide
  obtain ⟨hskip, ⟨hm, -⟩ | ⟨-, -, hjoin⟩⟩ := (branches_rejoin crossed hb).2 2 hstop
  · exact absurd hm (by decide)
  · exact ⟨by decide, hb, hend, hskip, hjoin 6 hend⟩

end Program

end NodeScript
