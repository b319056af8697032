import NodeScript.Proofs.Nesting

/-!
Blocks by their indices. In a nested list each opener has its own terminator, which is the one that
the scan for its kind finds, and no block crosses the border of another.
-/

namespace NodeScript.Block

variable {kind other : BlockKind} {m : Mark} {marks ms rest before seg after : List Mark}
  {start finish index depth : Nat}

/-! ### Scans -/

theorem closing?_skip (ho : m ≠ some kind.opener) (ht : m ≠ some kind.terminator) :
    closing? kind depth (m :: ms) = (closing? kind depth ms).map (· + 1) := by
  simp [closing?, ho, ht]

@[simp] theorem closing?_opener :
    closing? kind depth (some kind.opener :: ms) = (closing? kind (depth + 1) ms).map (· + 1) := by
  simp [closing?]

@[simp] theorem closing?_terminator :
    closing? kind 0 (some kind.terminator :: ms) = some 0 := by
  simp [closing?]

@[simp] theorem closing?_terminator_succ :
    closing? kind (depth + 1) (some kind.terminator :: ms) =
      (closing? kind depth ms).map (· + 1) := by
  simp [closing?]

/-- A scan for the end of a block passes over whole blocks of every kind. -/
theorem closing?_block {body : List Mark}
    (hb : ∀ depth rest, closing? kind depth (body ++ rest) =
      (closing? kind depth rest).map (· + body.length)) :
    closing? kind depth (some other.opener :: (body ++ some other.terminator :: rest)) =
      (closing? kind depth rest).map (· + (body.length + 2)) := by
  by_cases hk : kind = other
  · subst hk
    simp only [closing?_opener, hb, closing?_terminator_succ, Option.map_map]
    cases closing? kind depth rest <;> simp
    omega
  · have ho : some other.opener ≠ some kind.opener := by simpa using fun h => hk h.symm
    have ht : some other.terminator ≠ some kind.terminator := by simpa using fun h => hk h.symm
    rw [closing?_skip ho (by simp), hb, closing?_skip (by simp) ht]
    cases closing? kind depth rest <;> simp
    omega

theorem closing?_nested (h : Nested ms) :
    closing? kind depth (ms ++ rest) = (closing? kind depth rest).map (· + ms.length) := by
  refine Nested.induct (P := fun ms => ∀ depth rest,
      closing? kind depth (ms ++ rest) = (closing? kind depth rest).map (· + ms.length))
    (Q := fun _ ms => ∀ depth rest,
      closing? kind depth (ms ++ rest) = (closing? kind depth rest).map (· + ms.length))
    ?_ ?_ ?_ (fun _ _ ih => ih) ?_ h depth rest
  · intro depth rest
    simp
  · intro m ms hm ih depth rest
    rw [List.cons_append, closing?_skip (isPlain_ne_opener hm _) (isPlain_ne_terminator hm _), ih]
    simp [Option.map_map, Function.comp_def, Nat.add_assoc]
  · intro other body ms ihb ihr depth rest
    simp only [List.cons_append, List.append_assoc, closing?_block ihb, ihr, Option.map_map]
    cases closing? kind depth rest <;> simp
    omega
  · intro first ms ihf ihr depth rest
    rw [List.append_assoc, ihf, List.cons_append, closing?_skip (by simp) (by simp), ihr]
    cases closing? kind depth rest <;> simp
    omega

theorem closing?_inside (h : Inside other ms) :
    closing? kind depth (ms ++ rest) = (closing? kind depth rest).map (· + ms.length) := by
  refine Inside.induct (P := fun ms => ∀ depth rest,
      closing? kind depth (ms ++ rest) = (closing? kind depth rest).map (· + ms.length))
    (Q := fun _ ms => ∀ depth rest,
      closing? kind depth (ms ++ rest) = (closing? kind depth rest).map (· + ms.length))
    (fun h _ _ => closing?_nested h) (fun _ _ ih => ih) ?_ h depth rest
  intro first ms ihf ihr depth rest
  rw [List.append_assoc, ihf, List.cons_append, closing?_skip (by simp) (by simp), ihr]
  cases closing? kind depth rest <;> simp
  omega

theorem elseOrClosing?_skip (hb : m ≠ some .branch) (ho : m ≠ some .otherwise)
    (he : m ≠ some .endBranch) :
    elseOrClosing? depth (m :: ms) = (elseOrClosing? depth ms).map (· + 1) := by
  simp [elseOrClosing?, hb, ho, he]

@[simp] theorem elseOrClosing?_branch :
    elseOrClosing? depth (some .branch :: ms) = (elseOrClosing? (depth + 1) ms).map (· + 1) := by
  simp [elseOrClosing?]

@[simp] theorem elseOrClosing?_otherwise :
    elseOrClosing? 0 (some .otherwise :: ms) = some 0 := by
  simp [elseOrClosing?]

@[simp] theorem elseOrClosing?_otherwise_succ :
    elseOrClosing? (depth + 1) (some .otherwise :: ms) =
      (elseOrClosing? (depth + 1) ms).map (· + 1) := by
  simp [elseOrClosing?]

@[simp] theorem elseOrClosing?_endBranch :
    elseOrClosing? 0 (some .endBranch :: ms) = some 0 := by
  simp [elseOrClosing?]

@[simp] theorem elseOrClosing?_endBranch_succ :
    elseOrClosing? (depth + 1) (some .endBranch :: ms) =
      (elseOrClosing? depth ms).map (· + 1) := by
  simp [elseOrClosing?]

/-- A scan for an `else` passes over nested lists. Inside of a branch it has counted that branch, so
that the `else` marks there do not stop it. -/
theorem elseOrClosing?_nested (h : Nested ms) :
    elseOrClosing? depth (ms ++ rest) = (elseOrClosing? depth rest).map (· + ms.length) := by
  refine Nested.induct (P := fun ms => ∀ depth rest,
      elseOrClosing? depth (ms ++ rest) = (elseOrClosing? depth rest).map (· + ms.length))
    (Q := fun kind ms => ∀ depth rest, (kind = .branch → 0 < depth) →
      elseOrClosing? depth (ms ++ rest) = (elseOrClosing? depth rest).map (· + ms.length))
    ?_ ?_ ?_ (fun _ _ ih depth rest _ => ih depth rest) ?_ h depth rest
  · intro depth rest
    simp
  · intro m ms hm ih depth rest
    rw [List.cons_append, elseOrClosing?_skip (isPlain_ne_opener hm .branch)
      (isPlain_ne_otherwise hm) (isPlain_ne_terminator hm .branch), ih]
    cases elseOrClosing? depth rest <;> simp
    omega
  · intro kind body ms ihb ihr depth rest
    by_cases hk : kind = .branch
    · subst hk
      simp only [BlockKind.opener, BlockKind.terminator, List.cons_append, List.append_assoc,
        elseOrClosing?_branch, ihb (depth + 1) _ (fun _ => depth.succ_pos),
        elseOrClosing?_endBranch_succ, ihr]
      cases elseOrClosing? depth rest <;> simp
      omega
    · have hskip : ∀ ms, elseOrClosing? depth (some kind.opener :: ms) =
          (elseOrClosing? depth ms).map (· + 1) := by
        intro ms
        apply elseOrClosing?_skip <;> cases kind <;> simp_all [BlockKind.opener]
      have hskip' : ∀ ms, elseOrClosing? depth (some kind.terminator :: ms) =
          (elseOrClosing? depth ms).map (· + 1) := by
        intro ms
        apply elseOrClosing?_skip <;> cases kind <;> simp_all [BlockKind.terminator]
      simp only [List.cons_append, List.append_assoc, hskip, hskip',
        ihb depth _ (fun h => absurd h hk), ihr]
      cases elseOrClosing? depth rest <;> simp
      omega
  · intro first ms ihf ihr depth rest hd
    obtain ⟨depth, rfl⟩ : ∃ d, depth = d + 1 := ⟨depth - 1, by have := hd rfl; omega⟩
    simp only [List.append_assoc, List.cons_append, ihf, elseOrClosing?_otherwise_succ,
      ihr (depth + 1) rest hd]
    cases elseOrClosing? (depth + 1) rest <;> simp
    omega

/-- The typed stack leaves no stray mark exactly if it takes all marks in. -/
theorem strays_eq_nil_iff {opened : List BlockKind} :
    strays opened index ms = [] ↔ (openAfter opened ms).isSome := by
  induction ms generalizing opened index with
  | nil => simp [strays]
  | cons m ms ih =>
    rw [openAfter_cons]
    cases m with
    | none => simp [strays, openAfterMark, ih]
    | some control =>
      simp only [strays, openAfterMark]
      cases control.opens? with
      | some kind => simp [ih]
      | none =>
        cases control.closes? with
        | none =>
          dsimp only
          split <;> simp [ih]
        | some kind =>
          cases opened with
          | nil => simp
          | cons top outer =>
            by_cases ht : top = kind <;> simp [ht, ih]

/-! ### Blocks by their indices -/

/-- A block of the kind is opened at `start` and closed by its own terminator at `finish`. -/
def Spans (marks : List Mark) (kind : BlockKind) (start finish : Nat) : Prop :=
  ∃ before body after,
    marks = before ++ some kind.opener :: (body ++ some kind.terminator :: after) ∧
      Inside kind body ∧ before.length = start ∧ start + 1 + body.length = finish

theorem Spans.start_lt (h : Spans marks kind start finish) : start < finish := by
  obtain ⟨before, body, after, -, -, -, rfl⟩ := h
  omega

theorem Spans.finish_lt (h : Spans marks kind start finish) : finish < marks.length := by
  obtain ⟨before, body, after, rfl, -, rfl, rfl⟩ := h
  simp
  omega

theorem Spans.getElem_start (h : Spans marks kind start finish) :
    marks[start]? = some (some kind.opener) := by
  obtain ⟨before, body, after, rfl, -, rfl, -⟩ := h
  simp

theorem Spans.getElem_finish (h : Spans marks kind start finish) :
    marks[finish]? = some (some kind.terminator) := by
  obtain ⟨before, body, after, rfl, -, rfl, rfl⟩ := h
  rw [List.getElem?_append_right (by omega), show before.length + 1 + body.length - before.length
    = body.length + 1 by omega]
  simp

/-- The scan from a mark passes over what stands inside of the block around it. -/
theorem endAfter?_inside (before after : List Mark) (m : Mark) (hb : Inside kind body) :
    endAfter? (before ++ m :: (body ++ some kind.terminator :: after)) kind before.length =
      some (before.length + 1 + body.length) := by
  have hdrop : (before ++ m :: (body ++ some kind.terminator :: after)).drop
      (before.length + 1) = body ++ some kind.terminator :: after := by
    simp [List.drop_append]
  simp only [endAfter?, hdrop, closing?_inside hb, closing?_terminator, Option.map_some]
  congr 1
  omega

/-- The scan from a branch stops at the end of its first part. -/
theorem elseOrEndAfter?_first (before after : List Mark) {first : List Mark} {stop : Control}
    (hn : Nested first) (hstop : stop = .otherwise ∨ stop = .endBranch) :
    elseOrEndAfter? (before ++ some .branch :: (first ++ some stop :: after)) before.length =
      some (before.length + 1 + first.length) := by
  have hdrop : (before ++ some .branch :: (first ++ some stop :: after)).drop
      (before.length + 1) = first ++ some stop :: after := by
    simp [List.drop_append]
  have hscan : elseOrClosing? 0 (some stop :: after) = some 0 := by
    obtain rfl | rfl := hstop <;> simp
  have hm : (before ++ some .branch :: (first ++ some stop :: after))[before.length]? =
      some (some .branch) := by
    simp
  rw [elseOrEndAfter?, hm]
  simp only [hdrop, elseOrClosing?_nested hn, hscan, Option.map_some]
  congr 1
  omega

/-- The scan of the machine finds a block's own terminator. -/
theorem Spans.endAfter (h : Spans marks kind start finish) :
    endAfter? marks kind start = some finish := by
  obtain ⟨before, body, after, rfl, hb, rfl, rfl⟩ := h
  exact endAfter?_inside before after _ hb

theorem Spans.finish_unique {finish' : Nat} (h : Spans marks kind start finish)
    (h' : Spans marks kind start finish') : finish = finish' :=
  Option.some.inj (h.endAfter.symm.trans h'.endAfter)

theorem Spans.kind_unique {finish' : Nat} (h : Spans marks kind start finish)
    (h' : Spans marks other start finish') : kind = other := by
  simpa using h.getElem_start.symm.trans h'.getElem_start

theorem Spans.within (h : Spans seg kind start finish) :
    Spans (before ++ (seg ++ after)) kind (before.length + start) (before.length + finish) := by
  obtain ⟨before', body, after', rfl, hb, rfl, rfl⟩ := h
  exact ⟨before ++ before', body, after' ++ after, by simp, hb, by simp, by omega⟩

theorem exists_split (h : marks[index]? = some m) :
    ∃ before after, marks = before ++ m :: after ∧ before.length = index := by
  obtain ⟨hi, rfl⟩ := List.getElem?_eq_some_iff.1 h
  exact ⟨marks.take index, marks.drop (index + 1), by simp, by simp; omega⟩

theorem openAfter_split (h : Nested (before ++ rest)) :
    ∃ opened, openAfter [] before = some opened ∧ openAfter opened rest = some [] := by
  have hopen := nested_iff_openAfter.1 h
  rw [openAfter_append] at hopen
  exact Option.bind_eq_some_iff.1 hopen

theorem Nested.spans_of_opener (h : Nested ms) (hi : ms[index]? = some (some kind.opener)) :
    ∃ finish, Spans ms kind index finish := by
  obtain ⟨before, after, rfl, rfl⟩ := exists_split hi
  obtain ⟨opened, -, hrest⟩ := openAfter_split h
  cases closing_of_openAfter (by simpa using hrest : openAfter (kind :: opened) after = some [])
    with
  | close hb _ => exact ⟨_, before, _, _, rfl, hb, rfl, rfl⟩

theorem Nested.spans_of_terminator (h : Nested ms)
    (hi : ms[index]? = some (some kind.terminator)) : ∃ start, Spans ms kind start index := by
  obtain ⟨before, after, rfl, rfl⟩ := exists_split hi
  obtain ⟨opened, hopen, hrest⟩ := openAfter_split h
  obtain ⟨outer, rfl, -⟩ := openAfter_terminator_some hrest
  cases opening_of_openAfter (Opening.start Nested.empty) hopen with
  | @opened _ _ before body _ hb =>
    exact ⟨before.length, before, body, after, by simp, hb, rfl, by simp; omega⟩

/-- After an `else` comes the rest of its branch. -/
theorem Nested.split_otherwise (h : Nested ms) (hi : ms[index]? = some (some .otherwise)) :
    ∃ before body after, ms = before ++ some .otherwise :: (body ++ some .endBranch :: after) ∧
      Inside .branch body ∧ before.length = index := by
  obtain ⟨before, after, rfl, rfl⟩ := exists_split hi
  obtain ⟨opened, -, hrest⟩ := openAfter_split h
  obtain ⟨outer, rfl, hclose⟩ := openAfter_otherwise_some hrest
  cases closing_of_openAfter hclose with
  | close hb _ => exact ⟨before, _, _, rfl, hb, rfl⟩

theorem getElem?_divided {first : List Mark} (hm : some .otherwise ≠ m)
    (h : (first ++ some .otherwise :: rest)[index]? = some m) :
    first[index]? = some m ∨ ∃ j, first.length + 1 + j = index ∧ rest[j]? = some m := by
  by_cases hlt : index < first.length
  · rw [List.getElem?_append_left hlt] at h
    exact Or.inl h
  · rw [List.getElem?_append_right (by omega)] at h
    obtain hz | ⟨j, hj⟩ : index - first.length = 0 ∨ ∃ j, index - first.length = j + 1 :=
      (Nat.eq_zero_or_eq_succ_pred _).imp_right fun hs => ⟨_, hs⟩
    · simp [hz, hm] at h
    · exact Or.inr ⟨j, by omega, by simpa [hj] using h⟩

/-- Openers and terminators inside of a block belong to blocks that lie inside of it as a whole. -/
theorem Inside.spans_of_opener (h : Inside other ms)
    (hi : ms[index]? = some (some kind.opener)) : ∃ finish, Spans ms kind index finish := by
  induction h generalizing index with
  | whole h => exact h.spans_of_opener hi
  | @divided first rest hf _ ih =>
    obtain hl | ⟨j, rfl, hr⟩ := getElem?_divided (by simp) hi
    · obtain ⟨finish, hs⟩ := hf.spans_of_opener hl
      exact ⟨finish, by simpa using @Spans.within _ [] _ (some .otherwise :: rest) _ _ hs⟩
    · obtain ⟨finish, hs⟩ := ih hr
      have hin := @Spans.within _ (first ++ [some .otherwise]) _ [] _ _ hs
      exact ⟨first.length + 1 + finish, by simpa using hin⟩

theorem Inside.spans_of_terminator (h : Inside other ms)
    (hi : ms[index]? = some (some kind.terminator)) : ∃ start, Spans ms kind start index := by
  induction h generalizing index with
  | whole h => exact h.spans_of_terminator hi
  | @divided first rest hf _ ih =>
    obtain hl | ⟨j, rfl, hr⟩ := getElem?_divided (by simp) hi
    · obtain ⟨start, hs⟩ := hf.spans_of_terminator hl
      exact ⟨start, by simpa using @Spans.within _ [] _ (some .otherwise :: rest) _ _ hs⟩
    · obtain ⟨start, hs⟩ := ih hr
      have hin := @Spans.within _ (first ++ [some .otherwise]) _ [] _ _ hs
      exact ⟨first.length + 1 + start, by simpa using hin⟩

theorem Spans.start_unique {start' : Nat} (h : Spans marks kind start finish)
    (h' : Spans marks kind start' finish) : start = start' := by
  by_contra hne
  wlog hlt : start < start' generalizing start start'
  · exact this h' h (Ne.symm hne) (by omega)
  have hlt' := h'.start_lt
  have hopen := h'.getElem_start
  obtain ⟨before, body, after, rfl, hb, rfl, rfl⟩ := h
  obtain ⟨j, rfl⟩ : ∃ j, start' = before.length + 1 + j := ⟨start' - (before.length + 1), by omega⟩
  have hbody : body[j]? = some (some kind.opener) := by
    rw [List.getElem?_append_right (by omega),
      show before.length + 1 + j - before.length = j + 1 by omega, List.getElem?_cons_succ,
      List.getElem?_append_left (by omega)] at hopen
    exact hopen
  obtain ⟨t, ht⟩ := hb.spans_of_opener hbody
  have hin := @Spans.within _ (before ++ [some kind.opener]) _ (some kind.terminator :: after)
    _ _ ht
  have heq := h'.finish_unique (by simpa using hin)
  have := ht.finish_lt
  simp at heq
  omega

/-- No block crosses the border of what stands inside of another block. -/
theorem Inside.closed (h : Inside other seg) (hm : marks = before ++ (seg ++ after))
    (hs : Spans marks kind start finish) :
    (before.length ≤ start ∧ start < before.length + seg.length) ↔
      (before.length ≤ finish ∧ finish < before.length + seg.length) := by
  subst hm
  have hget : ∀ j, j < seg.length → (before ++ (seg ++ after))[before.length + j]? = seg[j]? := by
    intro j hj
    rw [List.getElem?_append_right (by omega), show before.length + j - before.length = j by omega,
      List.getElem?_append_left hj]
  constructor
  · rintro ⟨hle, hlt⟩
    obtain ⟨j, rfl⟩ : ∃ j, start = before.length + j := ⟨start - before.length, by omega⟩
    have hopen := hs.getElem_start
    rw [hget j (by omega)] at hopen
    obtain ⟨t, ht⟩ := h.spans_of_opener hopen
    have heq := hs.finish_unique ht.within
    have := ht.finish_lt
    omega
  · rintro ⟨hle, hlt⟩
    obtain ⟨j, rfl⟩ : ∃ j, finish = before.length + j := ⟨finish - before.length, by omega⟩
    have hend := hs.getElem_finish
    rw [hget j (by omega)] at hend
    obtain ⟨t, ht⟩ := h.spans_of_terminator hend
    have heq := hs.start_unique ht.within
    have := ht.start_lt
    omega

end NodeScript.Block
