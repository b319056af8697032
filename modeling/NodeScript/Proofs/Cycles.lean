import Mathlib.Data.List.Chain
import Mathlib.Data.List.Rotate
import Mathlib.Data.String.Basic
import Mathlib.Logic.Relation
import NodeScript.Store.Cycles

/-!
Searches for cycles that miss none, and what follows where they list none: no vertex has a way back to
itself. The search from the least vertices on is such a search. It starts at the least vertex of a
cycle and follows the cycle itself, whose vertices still have their ways back at every step.
-/

namespace NodeScript.Cycle

variable {edges : Arrows} {first last v w : String} {allowed latest reached xs ys : List String}
  {found : List (List String)} {limit fuel : Nat}

/-! ### Ways back -/

/-- There is a way of one or more edges from one vertex to another. -/
abbrev Way (edges : Arrows) : String → String → Prop :=
  Relation.TransGen fun v w => (v, w) ∈ edges

/-- The vertices lead from `last` on and then to `first`. -/
def Leads (edges : Arrows) (first : String) : (last : String) → List String → Prop
  | last, [] => (last, first) ∈ edges
  | last, x :: xs => (last, x) ∈ edges ∧ Leads edges first x xs

theorem leads_append_cons :
    Leads edges first last (xs ++ v :: ys) ↔ Leads edges v last xs ∧ Leads edges first v ys := by
  induction xs generalizing last with
  | nil => exact Iff.rfl
  | cons x xs ih => simp only [List.cons_append, Leads, ih, and_assoc]

theorem exists_leads (h : Way edges last first) :
    ∃ xs, Leads edges first last xs := by
  induction h using Relation.TransGen.head_induction_on with
  | single h => exact ⟨[], h⟩
  | head h _ ih =>
    obtain ⟨xs, hxs⟩ := ih
    exact ⟨_ :: xs, h, hxs⟩

/-- A way can be cut short until it meets no vertex twice. -/
theorem Leads.exists_nodup (h : Leads edges first last xs) :
    ∃ ys, Leads edges first last ys ∧ (first :: ys).Nodup := by
  induction xs generalizing last with
  | nil => exact ⟨[], h, by simp⟩
  | cons x xs ih =>
    obtain ⟨ys, hys, hnodup⟩ := ih h.2
    by_cases hx : x = first
    · subst hx
      exact ⟨[], h.1, by simp⟩
    · by_cases hmem : x ∈ ys
      · obtain ⟨before, after, rfl⟩ := List.append_of_mem hmem
        refine ⟨x :: after, ⟨h.1, (leads_append_cons.1 hys).2⟩, hnodup.sublist ?_⟩
        exact (List.sublist_append_right before _).cons_cons first
      · refine ⟨x :: ys, ⟨h.1, hys⟩, ?_⟩
        simp only [List.nodup_cons, List.mem_cons, not_or] at hnodup ⊢
        exact ⟨⟨Ne.symm hx, hnodup.1⟩, hmem, hnodup.2⟩

/-- The vertices come one after the other along edges, none of them twice, and there is an edge from
the last of them to the first. -/
def Simple (edges : Arrows) : List String → Prop
  | [] => False
  | v :: vs => Leads edges v v vs ∧ (v :: vs).Nodup

/-- There is no way from a vertex back to itself. -/
def Acyclic (edges : Arrows) : Prop :=
  ∀ v, ¬ Way edges v v

/-- A search that lists every simple cycle, from one of its vertices on, unless it lists as many
cycles as it is asked for. -/
def Search.Complete (search : Search) : Prop :=
  ∀ (vertices : List String) (edges : Arrows) (limit : Nat) (cycle : List String),
    (∀ v w, (v, w) ∈ edges → v ∈ vertices) → Simple edges cycle →
    (search vertices edges limit).cycles.length < limit →
    ∃ listed ∈ (search vertices edges limit).cycles, listed.IsRotated cycle

/-- Where such a search lists nothing there are no cycles. -/
theorem Search.Complete.acyclic {search : Search} (hsearch : search.Complete)
    {vertices : List String} (hlimit : 0 < limit) (hedges : ∀ v w, (v, w) ∈ edges → v ∈ vertices)
    (h : (search vertices edges limit).cycles = []) : Acyclic edges := by
  intro v hv
  obtain ⟨xs, hleads⟩ := exists_leads hv
  obtain ⟨ys, hleads, hnodup⟩ := hleads.exists_nodup
  obtain ⟨listed, hlisted, -⟩ :=
    hsearch vertices edges limit (v :: ys) hedges ⟨hleads, hnodup⟩ (by rwa [h])
  rw [h] at hlisted
  cases hlisted

/-! ### Vertices with a way back -/

/-- The vertices that a round adds. -/
theorem mem_more_iff :
    (v ∈ edges.filterMap fun (v, w) =>
        if latest.contains w && allowed.contains v && !reached.contains v then some v else none) ↔
      ∃ w ∈ latest, (v, w) ∈ edges ∧ v ∈ allowed ∧ v ∉ reached := by
  simp only [List.mem_filterMap, Prod.exists, Option.ite_none_right_eq_some, Bool.and_eq_true,
    Option.some.injEq]
  constructor
  · rintro ⟨u, w, he, ⟨⟨hw, hv⟩, hnew⟩, rfl⟩
    exact ⟨w, by simpa using hw, he, by simpa using hv, by simpa using hnew⟩
  · rintro ⟨w, hw, he, hv, hnew⟩
    exact ⟨v, w, he, ⟨⟨by simpa using hw, by simpa using hv⟩, by simpa using hnew⟩, rfl⟩

theorem subset_reaching (count : Nat) :
    reached ⊆ reaching edges allowed count latest reached := by
  induction count generalizing latest reached with
  | zero => exact List.Subset.refl _
  | succ count ih =>
    unfold reaching
    dsimp only
    split
    · exact List.Subset.refl _
    · exact List.Subset.trans (List.subset_append_right _ _) ih

/-- The search goes back along every edge. Those into vertices reached before the latest ones have
been gone back along, and every round but the last one reaches another vertex that is allowed. -/
theorem mem_reaching_of_edge {count : Nat}
    (hdone : ∀ v w, (v, w) ∈ edges → w ∈ reached → w ∉ latest → v ∈ allowed → v ∈ reached)
    (hcount : (allowed.filter (· ∉ reached)).length ≤ count) (he : (v, w) ∈ edges)
    (hw : w ∈ reaching edges allowed count latest reached) (hv : v ∈ allowed) :
    v ∈ reaching edges allowed count latest reached := by
  induction count generalizing latest reached with
  | zero =>
    have hnone := List.filter_eq_nil_iff.1 (List.length_eq_zero_iff.1 (Nat.le_zero.1 hcount)) v hv
    simpa [reaching] using hnone
  | succ count ih =>
    unfold reaching at hw ⊢
    dsimp only at hw ⊢
    split
    · next hempty =>
      rw [if_pos hempty] at hw
      by_contra hnew
      by_cases hlatest : w ∈ latest
      · have hmore := mem_more_iff.2 ⟨w, hlatest, he, hv, hnew⟩
        rw [List.isEmpty_iff.1 hempty] at hmore
        cases hmore
      · exact hnew (hdone v w he hw hlatest hv)
    · next hmore =>
      rw [if_neg hmore] at hw
      refine ih (fun u x hux hx hold hu => ?_) ?_ hw
      · -- What is not among the latest now was reached before.
        have hreached : x ∈ reached := (List.mem_append.1 hx).resolve_left hold
        by_cases hu' : u ∈ reached
        · exact List.mem_append_right _ hu'
        · by_cases hlatest : x ∈ latest
          · refine List.mem_append_left _ (List.mem_eraseDups.2 ?_)
            exact mem_more_iff.2 ⟨x, hlatest, hux, hu, hu'⟩
          · exact absurd (hdone u x hux hreached hlatest hu) hu'
      · -- One of the vertices that were missing is not missing any more.
        obtain ⟨u, hu⟩ := List.exists_mem_of_ne_nil _ (mt List.isEmpty_iff.2 hmore)
        obtain ⟨-, -, -, hallowed, hnew⟩ := mem_more_iff.1 hu
        refine Nat.le_of_lt_succ (Nat.lt_of_lt_of_le ?_ hcount)
        simp only [List.mem_append, not_or, Bool.decide_and]
        rw [← List.filter_filter, List.length_filter_lt_length_iff_exists]
        refine ⟨u, by simp [hallowed, hnew], ?_⟩
        simpa only [decide_not, Bool.not_eq_true', decide_eq_false_iff_not, not_not,
          List.mem_eraseDups] using hu

/-- Every allowed vertex with a way to `first` through allowed vertices is found. -/
theorem Leads.mem_reachingFirst (h : Leads edges first v xs) (hv : v ∈ allowed) (hxs : xs ⊆ allowed) :
    v ∈ reachingFirst edges first allowed := by
  have hback {u x : String} (he : (u, x) ∈ edges) (hu : u ∈ allowed)
      (hx : x ∈ reachingFirst edges first allowed) : u ∈ reachingFirst edges first allowed :=
    mem_reaching_of_edge (fun _ _ _ hw hnew => absurd hw hnew) (List.length_filter_le _ _) he hx hu
  induction xs generalizing v with
  | nil => exact hback h hv (subset_reaching _ List.mem_cons_self)
  | cons x xs ih =>
    exact hback h.1 hv (ih h.2 (hxs List.mem_cons_self) fun _ hy => hxs (List.mem_cons_of_mem x hy))

/-- All of a way back is found: from each vertex on, the rest of it is a way back, too. -/
theorem Leads.subset_reachingFirst (h : Leads edges first v xs) (hxs : xs ⊆ allowed) :
    xs ⊆ reachingFirst edges first allowed := by
  intro y hy
  obtain ⟨before, after, rfl⟩ := List.append_of_mem hy
  exact (leads_append_cons.1 h).2.mem_reachingFirst (hxs hy) fun z hz =>
    hxs (List.mem_append_right _ (List.mem_cons_of_mem y hz))

/-! ### The search from the least vertices on -/

section Folds

variable {α β : Type} {f : List β → α → List β} {as : List α} {a : α} {b : β} {bs : List β}

theorem prefix_foldl (hkeep : ∀ bs a, bs <+: f bs a) (as : List α) (bs : List β) :
    bs <+: as.foldl f bs := by
  induction as generalizing bs with
  | nil => exact List.prefix_rfl
  | cons a as ih => exact (hkeep bs a).trans (ih (f bs a))

/-- What one turn adds is there in the end, unless there is no room for it. -/
theorem mem_foldl_of_turn (hkeep : ∀ bs a, bs <+: f bs a) (ha : a ∈ as)
    (hturn : ∀ bs, (f bs a).length < limit → b ∈ f bs a)
    (hlength : (as.foldl f bs).length < limit) : b ∈ as.foldl f bs := by
  obtain ⟨before, after, rfl⟩ := List.append_of_mem ha
  rw [List.foldl_append, List.foldl_cons] at hlength ⊢
  have hlater := prefix_foldl hkeep after (f (before.foldl f bs) a)
  exact hlater.subset (hturn _ (Nat.lt_of_le_of_lt hlater.length_le hlength))

end Folds

/-- One way on from the last vertex of a path. -/
def turn (edges : Arrows) (limit : Nat) (first : String) (allowed : List String) (fuel : Nat)
    (path : List String) (found : List (List String)) (next : String) : List (List String) :=
  if limit ≤ found.length then found
  else if next == first then found ++ [path.reverse]
  else if allowed.contains next then
    let others := allowed.filter fun v => v != next && v != first
    extend edges limit first (reachingFirst edges first others) fuel (next :: path) next found
  else found

theorem extend_succ (path : List String) :
    extend edges limit first allowed (fuel + 1) path last found =
      (successors edges last).foldl (turn edges limit first allowed fuel path) found :=
  rfl

theorem prefix_turn (path : List String)
    (hextend : ∀ allowed path last,
      found <+: extend edges limit first allowed fuel path last found) (next : String) :
    found <+: turn edges limit first allowed fuel path found next := by
  unfold turn
  split
  · exact List.prefix_rfl
  · split
    · exact List.prefix_append _ _
    · split
      · exact hextend _ _ _
      · exact List.prefix_rfl

/-- What has been found stays found. -/
theorem prefix_extend (path : List String) (found : List (List String)) :
    found <+: extend edges limit first allowed fuel path last found := by
  induction fuel generalizing allowed path last found with
  | zero => exact List.prefix_rfl
  | succ fuel ih =>
    rw [extend_succ]
    exact prefix_foldl
      (fun found next => prefix_turn path (fun _ path _ => ih path found) next) _ found

theorem mem_successors : w ∈ successors edges v ↔ (v, w) ∈ edges := by
  simp [successors]

/-- What a search adds by going on along an edge is there in the end. -/
theorem mem_extend_of_turn {path cycle : List String} {next : String}
    (he : (last, next) ∈ edges)
    (hturn : ∀ found, (turn edges limit first allowed fuel path found next).length < limit →
      cycle ∈ turn edges limit first allowed fuel path found next)
    (hlength : (extend edges limit first allowed (fuel + 1) path last found).length < limit) :
    cycle ∈ extend edges limit first allowed (fuel + 1) path last found := by
  rw [extend_succ] at hlength ⊢
  exact mem_foldl_of_turn
    (fun found next => prefix_turn path (fun _ path _ => prefix_extend path found) next)
    (mem_successors.2 he) hturn hlength

/-- From the end of a path the search finds every way back to its first vertex through vertices that
are allowed. -/
theorem mem_extend (path : List String) (h : Leads edges first last xs)
    (hnodup : (first :: xs).Nodup) (hxs : xs ⊆ allowed) (hfuel : xs.length < fuel)
    (hlength : (extend edges limit first allowed fuel path last found).length < limit) :
    path.reverse ++ xs ∈ extend edges limit first allowed fuel path last found := by
  induction xs generalizing allowed fuel path last found with
  | nil =>
    obtain ⟨fuel, rfl⟩ := Nat.exists_eq_add_one_of_ne_zero hfuel.ne'
    refine mem_extend_of_turn h (fun found hlength => ?_) hlength
    unfold turn at hlength ⊢
    split
    · next hfull =>
      rw [if_pos hfull] at hlength
      exact absurd hlength (Nat.not_lt.2 hfull)
    · simp
  | cons x xs ih =>
    obtain ⟨fuel, rfl⟩ := Nat.exists_eq_add_one_of_ne_zero (Nat.ne_zero_of_lt hfuel)
    simp only [List.nodup_cons, List.mem_cons, not_or] at hnodup
    obtain ⟨⟨hfirst, hfirst'⟩, hx, hnodup⟩ := hnodup
    have hothers : xs ⊆ allowed.filter fun v => v != x && v != first := by
      intro y hy
      have hyx : y ≠ x := fun h => hx (h ▸ hy)
      have hyfirst : y ≠ first := fun h => hfirst' (h ▸ hy)
      simp [hxs (List.mem_cons_of_mem x hy), hyx, hyfirst]
    refine mem_extend_of_turn h.1 (fun found hlength => ?_) hlength
    unfold turn at hlength ⊢
    split
    · next hfull =>
      rw [if_pos hfull] at hlength
      exact absurd hlength (Nat.not_lt.2 hfull)
    · next hroom =>
      have hmem : allowed.contains x = true := by simpa using hxs List.mem_cons_self
      have hne : ¬ (x == first) = true := by simpa using Ne.symm hfirst
      rw [if_neg hroom, if_neg hne, if_pos hmem] at hlength
      rw [if_neg hne, if_pos hmem, List.append_cons, ← List.reverse_cons]
      exact ih _ h.2 (List.nodup_cons.2 ⟨hfirst', hnodup⟩) (h.2.subset_reachingFirst hothers)
        (by simpa using hfuel) hlength

/-- Every vertex of a simple cycle has an edge to another one. -/
theorem Leads.exists_edge (h : Leads edges first last xs) (hv : v ∈ last :: xs) :
    ∃ w, (v, w) ∈ edges := by
  induction xs generalizing last with
  | nil =>
    obtain rfl := List.mem_singleton.1 hv
    exact ⟨first, h⟩
  | cons x xs ih =>
    obtain rfl | hv := List.mem_cons.1 hv
    · exact ⟨x, h.1⟩
    · exact ih h.2 hv

/-- A simple cycle can be followed from any of its vertices on. -/
theorem Simple.rotate {before : List String} (h : Simple edges (before ++ v :: ys)) :
    Simple edges (v :: (ys ++ before)) := by
  cases before with
  | nil => simpa using h
  | cons x xs =>
    obtain ⟨hleads, hnodup⟩ := h
    obtain ⟨hto, hback⟩ := leads_append_cons.1 hleads
    have hnodup : (v :: ys ++ x :: xs).Nodup := List.nodup_append_comm.1 hnodup
    exact ⟨leads_append_cons.2 ⟨hback, hto⟩, hnodup⟩

/-- A simple cycle is listed from its least vertex on. -/
theorem mem_all {vertices : List String} (hedges : ∀ v w, (v, w) ∈ edges → v ∈ vertices)
    (h : Simple edges (v :: ys)) (hleast : ∀ w ∈ ys, v ≤ w)
    (hlength : (all vertices edges limit).length < limit) : v :: ys ∈ all vertices edges limit := by
  obtain ⟨hleads, hnodup⟩ := h
  have hvertex {w : String} (hw : w ∈ v :: ys) : w ∈ vertices := by
    obtain ⟨_, he⟩ := hleads.exists_edge hw
    exact hedges _ _ he
  have hys : ys ⊆ vertices.filter fun w => decide (v < w) := by
    intro y hy
    have hne : v ≠ y := fun h => (List.nodup_cons.1 hnodup).1 (h ▸ hy)
    simp only [List.mem_filter, decide_eq_true_eq]
    exact ⟨hvertex (List.mem_cons_of_mem v hy), lt_of_le_of_ne (hleast y hy) hne⟩
  unfold all at hlength ⊢
  refine mem_foldl_of_turn (a := v) (fun found _ => prefix_extend _ found)
    (hvertex List.mem_cons_self) (fun found hlength => ?_) hlength
  refine mem_extend [v] hleads hnodup (hleads.subset_reachingFirst hys) ?_ hlength
  refine Nat.lt_succ_of_le ((List.nodup_cons.1 hnodup).2.length_le_of_subset fun y hy => ?_)
  exact (List.mem_filter.1 (hys hy)).1

theorem complete_search : search.Complete := by
  intro vertices edges limit cycle hedges hcycle hlength
  obtain ⟨v, hv, hleast⟩ : ∃ v ∈ cycle, ∀ w ∈ cycle, v ≤ w := by
    cases cycle with
    | nil => exact hcycle.elim
    | cons x xs =>
      exact ⟨_, List.min_mem (List.cons_ne_nil x xs), fun w hw => List.min_le_of_mem hw⟩
  obtain ⟨before, after, rfl⟩ := List.append_of_mem hv
  have hrotated : (v :: after ++ before).IsRotated (before ++ v :: after) := List.isRotated_append
  refine ⟨_, mem_all hedges hcycle.rotate (fun w hw => hleast w ?_) hlength, hrotated⟩
  simp only [List.mem_append, List.mem_cons] at hw ⊢
  tauto

/-- A walk along edges, given backwards, comes to no vertex twice if there are no cycles. -/
theorem Acyclic.nodup_of_isChain {vs : List String} (h : Acyclic edges)
    (hvs : vs.IsChain fun w v => (v, w) ∈ edges) : vs.Nodup := by
  have : Trans (fun w v => Way edges v w) (fun w v => Way edges v w) fun w v => Way edges v w :=
    ⟨fun hxy hyz => hyz.trans hxy⟩
  have hways : vs.IsChain fun w v => Way edges v w := hvs.imp fun _ _ he => .single he
  refine (List.isChain_iff_pairwise.1 hways).imp fun hway heq => ?_
  subst heq
  exact h _ hway

end NodeScript.Cycle
