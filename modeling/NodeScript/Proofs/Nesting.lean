import Mathlib.Data.List.Basic
import NodeScript.Block

/-!
The grammar of blocks, and the stack of open blocks that decides it. A list of marks is nested
exactly if the stack ends empty; a stack that ends otherwise tells which openers were left alone.
-/

namespace NodeScript.Block

variable {kind : BlockKind} {m : Mark} {ms rest before body : List Mark}
  {opened final : List BlockKind}

/-- A mark that neither opens, divides nor closes a block. -/
def isPlain (m : Mark) : Bool := !startsBody m && !endsBody m

/-- The grammar of blocks:
`B ::= ε | x B | if B (else B)* endIf B | while B endWhile B | for B endFor B`, for both loops that
are called `for`. -/
inductive Nested : List Mark → Prop
  | empty : Nested []
  | plain {m : Mark} {rest : List Mark} (hm : isPlain m = true) (hr : Nested rest) :
      Nested (m :: rest)
  | branch {first rest : List Mark} {others : List (List Mark)} (hf : Nested first)
      (ho : ∀ other ∈ others, Nested other) (hr : Nested rest) :
      Nested (some .branch ::
        (first ++ others.flatMap (some .otherwise :: ·) ++ some .endBranch :: rest))
  | loop {kind : BlockKind} {body rest : List Mark} (hk : kind ≠ .branch) (hb : Nested body)
      (hr : Nested rest) :
      Nested (some kind.opener :: (body ++ some kind.terminator :: rest))

/-- What may stand between the opener of a block and its terminator. Only branches are divided. -/
inductive Inside : BlockKind → List Mark → Prop
  | whole {kind : BlockKind} {ms : List Mark} (h : Nested ms) : Inside kind ms
  | divided {first rest : List Mark} (hf : Nested first) (hr : Inside .branch rest) :
      Inside .branch (first ++ some .otherwise :: rest)

/-- The kinds of the open blocks after one more mark, innermost first; none if the mark closes or
divides a block that is not open. -/
def openAfterMark (opened : List BlockKind) : Mark → Option (List BlockKind)
  | none => some opened
  | some control =>
    match control.opens?, control.closes? with
    | some kind, _ => some (kind :: opened)
    | none, some kind => if opened.head? = some kind then some opened.tail else none
    | none, none =>
      if control = .otherwise && opened.head? != some .branch then none else some opened

def openAfter (opened : List BlockKind) (ms : List Mark) : Option (List BlockKind) :=
  ms.foldlM openAfterMark opened

/-! ### Marks -/

theorem mark_cases (m : Mark) :
    isPlain m = true ∨ m = some .otherwise ∨ (∃ kind : BlockKind, m = some kind.opener) ∨
      ∃ kind : BlockKind, m = some kind.terminator := by
  cases m with
  | none => exact Or.inl rfl
  | some control =>
    cases control with
    | branch => exact Or.inr (Or.inr (Or.inl ⟨.branch, rfl⟩))
    | whileLoop => exact Or.inr (Or.inr (Or.inl ⟨.whileLoop, rfl⟩))
    | numericFor => exact Or.inr (Or.inr (Or.inl ⟨.numericFor, rfl⟩))
    | genericFor => exact Or.inr (Or.inr (Or.inl ⟨.genericFor, rfl⟩))
    | endBranch => exact Or.inr (Or.inr (Or.inr ⟨.branch, rfl⟩))
    | endWhile => exact Or.inr (Or.inr (Or.inr ⟨.whileLoop, rfl⟩))
    | endNumericFor => exact Or.inr (Or.inr (Or.inr ⟨.numericFor, rfl⟩))
    | endGenericFor => exact Or.inr (Or.inr (Or.inr ⟨.genericFor, rfl⟩))
    | otherwise => exact Or.inr (Or.inl rfl)
    | breakLoop | giveBack | call => exact Or.inl rfl

theorem isPlain_ne_opener (hm : isPlain m = true) (kind : BlockKind) : m ≠ some kind.opener := by
  rintro rfl
  cases kind <;> simp [isPlain, startsBody, BlockKind.opener, Control.opens?] at hm

theorem isPlain_ne_terminator (hm : isPlain m = true) (kind : BlockKind) :
    m ≠ some kind.terminator := by
  rintro rfl
  cases kind <;> simp [isPlain, endsBody, BlockKind.terminator, Control.closes?] at hm

theorem isPlain_ne_otherwise (hm : isPlain m = true) : m ≠ some .otherwise := by
  rintro rfl
  simp [isPlain, startsBody] at hm

@[simp] theorem opener_inj {a b : BlockKind} : a.opener = b.opener ↔ a = b := by
  cases a <;> cases b <;> simp [BlockKind.opener]

@[simp] theorem terminator_inj {a b : BlockKind} : a.terminator = b.terminator ↔ a = b := by
  cases a <;> cases b <;> simp [BlockKind.terminator]

@[simp] theorem opener_ne_terminator (a b : BlockKind) : a.opener ≠ b.terminator := by
  cases a <;> cases b <;> simp [BlockKind.opener, BlockKind.terminator]

@[simp] theorem terminator_ne_opener (a b : BlockKind) : a.terminator ≠ b.opener :=
  fun h => opener_ne_terminator b a h.symm

@[simp] theorem otherwise_ne_opener (a : BlockKind) : Control.otherwise ≠ a.opener := by
  cases a <;> simp [BlockKind.opener]

@[simp] theorem otherwise_ne_terminator (a : BlockKind) : Control.otherwise ≠ a.terminator := by
  cases a <;> simp [BlockKind.terminator]

/-! ### The stack of open blocks -/

@[simp] theorem openAfter_nil : openAfter opened [] = some opened := rfl

theorem openAfter_cons :
    openAfter opened (m :: ms) = (openAfterMark opened m).bind (openAfter · ms) := rfl

theorem openAfter_append :
    openAfter opened (ms ++ rest) = (openAfter opened ms).bind (openAfter · rest) :=
  List.foldlM_append

@[simp] theorem openAfter_plain (hm : isPlain m = true) :
    openAfter opened (m :: ms) = openAfter opened ms := by
  have hmark : openAfterMark opened m = some opened := by
    cases m with
    | none => rfl
    | some control => cases control <;> simp_all [isPlain, startsBody, endsBody, openAfterMark,
        Control.opens?, Control.closes?]
  simp [openAfter_cons, hmark]

@[simp] theorem openAfter_opener :
    openAfter opened (some kind.opener :: ms) = openAfter (kind :: opened) ms := by
  cases kind <;> rfl

@[simp] theorem openAfter_terminator :
    openAfter (kind :: opened) (some kind.terminator :: ms) = openAfter opened ms := by
  cases kind <;> rfl

@[simp] theorem openAfter_otherwise :
    openAfter (.branch :: opened) (some .otherwise :: ms) = openAfter (.branch :: opened) ms :=
  rfl

/-- A terminator finds its own opener on top of the stack. -/
theorem openAfter_terminator_some
    (h : openAfter opened (some kind.terminator :: ms) = some final) :
    ∃ outer, opened = kind :: outer ∧ openAfter outer ms = some final := by
  cases opened with
  | nil => cases kind <;> simp [openAfter_cons, openAfterMark, BlockKind.terminator,
      Control.opens?, Control.closes?] at h
  | cons top outer =>
    by_cases ht : top = kind
    · subst ht
      exact ⟨outer, rfl, by simpa using h⟩
    · cases kind <;> simp [openAfter_cons, openAfterMark, BlockKind.terminator, Control.opens?,
        Control.closes?, ht] at h

/-- An `else` stands directly inside of a branch. -/
theorem openAfter_otherwise_some
    (h : openAfter opened (some .otherwise :: ms) = some final) :
    ∃ outer, opened = .branch :: outer ∧ openAfter (.branch :: outer) ms = some final := by
  cases opened with
  | nil => simp [openAfter_cons, openAfterMark, Control.opens?, Control.closes?] at h
  | cons top outer =>
    by_cases ht : top = .branch
    · subst ht
      exact ⟨outer, rfl, by simpa using h⟩
    · simp [openAfter_cons, openAfterMark, Control.opens?, Control.closes?, ht] at h

/-! ### The grammar, block by block -/

theorem Inside.parts (h : Inside .branch ms) :
    ∃ (first : List Mark) (others : List (List Mark)), Nested first ∧
      (∀ other ∈ others, Nested other) ∧ ms = first ++ others.flatMap (some .otherwise :: ·) := by
  generalize hk : BlockKind.branch = kind at h
  induction h with
  | @whole _ ms h => exact ⟨ms, [], h, by simp, by simp⟩
  | @divided first rest hf _ ih =>
    obtain ⟨second, others, hs, ho, rfl⟩ := ih hk
    refine ⟨first, second :: others, hf, ?_, by simp⟩
    simpa using ⟨hs, ho⟩

theorem Inside.nested (hk : kind ≠ .branch) (h : Inside kind ms) : Nested ms := by
  cases h with
  | whole h => exact h
  | divided => exact absurd rfl hk

theorem Nested.block (hb : Inside kind body) (hr : Nested rest) :
    Nested (some kind.opener :: (body ++ some kind.terminator :: rest)) := by
  by_cases hk : kind = .branch
  · subst hk
    obtain ⟨first, others, hf, ho, rfl⟩ := hb.parts
    exact Nested.branch hf ho hr
  · exact Nested.loop hk (hb.nested hk) hr

/-- Induction over nested lists in which both sorts of block are one case. The second predicate is
about what stands inside of a block. -/
theorem Nested.induct {P : List Mark → Prop} {Q : BlockKind → List Mark → Prop}
    (empty : P []) (plain : ∀ m rest, isPlain m = true → P rest → P (m :: rest))
    (block : ∀ (kind : BlockKind) body rest, Q kind body → P rest →
      P (some kind.opener :: (body ++ some kind.terminator :: rest)))
    (whole : ∀ kind ms, P ms → Q kind ms)
    (divided : ∀ first rest, P first → Q .branch rest →
      Q .branch (first ++ some .otherwise :: rest))
    (h : Nested ms) : P ms := by
  induction h with
  | empty => exact empty
  | plain hm _ ih => exact plain _ _ hm ih
  | @branch first rest others _ _ _ ihf iho ihr =>
    have hbody : Q .branch (first ++ others.flatMap (some .otherwise :: ·)) := by
      clear * - whole divided ihf iho
      induction others generalizing first with
      | nil => simpa using whole .branch _ ihf
      | cons second others ih =>
        have hrest := ih (iho second (by simp)) (fun other ho => iho other (by simp [ho]))
        simpa using divided _ _ ihf hrest
    exact block .branch _ _ hbody ihr
  | @loop kind _ _ _ _ _ ihb ihr => exact block kind _ _ (whole kind _ ihb) ihr

theorem Inside.induct {P : List Mark → Prop} {Q : BlockKind → List Mark → Prop}
    (nested : ∀ {ms}, Nested ms → P ms)
    (whole : ∀ kind ms, P ms → Q kind ms)
    (divided : ∀ first rest, P first → Q .branch rest →
      Q .branch (first ++ some .otherwise :: rest))
    (h : Inside kind ms) : Q kind ms := by
  induction h with
  | whole h => exact whole _ _ (nested h)
  | divided hf _ ih => exact divided _ _ (nested hf) ih

theorem Nested.append (h : Nested ms) (hr : Nested rest) : Nested (ms ++ rest) := by
  induction h with
  | empty => exact hr
  | plain hm _ ih => exact Nested.plain hm ih
  | branch hf ho _ _ _ ih => simpa using Nested.branch hf ho ih
  | loop hk hb _ _ ih => simpa using Nested.loop hk hb ih

theorem Inside.append (h : Inside kind ms) (hr : Nested rest) : Inside kind (ms ++ rest) := by
  induction h with
  | whole h => exact Inside.whole (h.append hr)
  | divided hf _ ih => simpa using Inside.divided hf ih

theorem Nested.append_inside (h : Nested ms) (hr : Inside kind rest) :
    Inside kind (ms ++ rest) := by
  cases hr with
  | whole hr => exact Inside.whole (h.append hr)
  | divided hf hr => simpa using Inside.divided (h.append hf) hr

/-- What may stand inside of a branch may also stand there after an `else`. -/
theorem Inside.after_else (h : Inside .branch ms) : Inside .branch (some .otherwise :: ms) :=
  Inside.divided Nested.empty h

theorem Inside.before_else (h : Inside .branch ms) : Inside .branch (ms ++ [some .otherwise]) := by
  generalize hk : BlockKind.branch = kind at h ⊢
  induction h with
  | whole h =>
    subst hk
    exact Inside.divided h (Inside.whole Nested.empty)
  | divided hf _ ih => simpa using Inside.divided hf (ih rfl)

/-! ### The stack decides the grammar -/

theorem openAfter_nested_append (h : Nested ms) :
    openAfter opened (ms ++ rest) = openAfter opened rest := by
  refine Nested.induct (P := fun ms => ∀ opened rest,
      openAfter opened (ms ++ rest) = openAfter opened rest)
    (Q := fun kind ms => ∀ opened rest,
      openAfter (kind :: opened) (ms ++ rest) = openAfter (kind :: opened) rest)
    ?_ ?_ ?_ ?_ ?_ h opened rest
  · intro opened rest
    rfl
  · intro m ms hm ih opened rest
    simp [hm, ih]
  · intro kind body ms ihb ihr opened rest
    simp [ihb, ihr]
  · intro kind ms ih opened rest
    exact ih _ _
  · intro first ms ihf ihr opened rest
    simp [ihf, ihr]

theorem openAfter_nested (h : Nested ms) : openAfter opened ms = some opened := by
  have hrest : openAfter opened (ms ++ []) = openAfter opened [] := openAfter_nested_append h
  simpa using hrest

/-- What a stack of open blocks still asks for: the rest of each block up to its terminator, and
then a nested list. -/
inductive Closing : List BlockKind → List Mark → Prop
  | done {ms : List Mark} (h : Nested ms) : Closing [] ms
  | close {kind : BlockKind} {outer : List BlockKind} {body rest : List Mark}
      (hb : Inside kind body) (hr : Closing outer rest) :
      Closing (kind :: outer) (body ++ some kind.terminator :: rest)

theorem Closing.prepend (hn : Nested before) (h : Closing opened ms) :
    Closing opened (before ++ ms) := by
  cases h with
  | done h => exact Closing.done (hn.append h)
  | close hb hr => simpa using Closing.close (hn.append_inside hb) hr

theorem closing_of_openAfter (h : openAfter opened ms = some []) : Closing opened ms := by
  induction ms generalizing opened with
  | nil =>
    obtain rfl : opened = [] := by simpa using h
    exact Closing.done Nested.empty
  | cons m ms ih =>
    obtain hm | rfl | ⟨kind, rfl⟩ | ⟨kind, rfl⟩ := mark_cases m
    · have hn : Nested [m] := Nested.plain hm Nested.empty
      exact (ih (by simpa [hm] using h)).prepend hn
    · obtain ⟨outer, rfl, hrest⟩ := openAfter_otherwise_some h
      cases ih hrest with
      | close hb hr => exact Closing.close hb.after_else hr
    · cases ih (by simpa using h) with
      | @close _ _ body rest hb hr =>
        have hn : Nested (some kind.opener :: (body ++ [some kind.terminator])) :=
          Nested.block hb Nested.empty
        simpa using hr.prepend hn
    · obtain ⟨outer, rfl, hrest⟩ := openAfter_terminator_some h
      exact Closing.close (Inside.whole Nested.empty) (ih hrest)

/-- The part of a list up to some place, given the blocks that are open there. -/
inductive Opening : List BlockKind → List Mark → Prop
  | start {ms : List Mark} (h : Nested ms) : Opening [] ms
  | opened {kind : BlockKind} {outer : List BlockKind} {before body : List Mark}
      (hb : Opening outer before) (hi : Inside kind body) :
      Opening (kind :: outer) (before ++ some kind.opener :: body)

theorem Opening.extend (h : Opening opened before) (hn : Nested ms) :
    Opening opened (before ++ ms) := by
  cases h with
  | start h => exact Opening.start (h.append hn)
  | opened hb hi => simpa using Opening.opened hb (hi.append hn)

theorem opening_of_openAfter (hb : Opening opened before) (h : openAfter opened ms = some final) :
    Opening final (before ++ ms) := by
  induction ms generalizing opened before with
  | nil =>
    obtain rfl : opened = final := by simpa using h
    simpa using hb
  | cons m ms ih =>
    rw [← List.singleton_append, ← List.append_assoc]
    obtain hm | rfl | ⟨kind, rfl⟩ | ⟨kind, rfl⟩ := mark_cases m
    · exact ih (hb.extend (Nested.plain hm Nested.empty)) (by simpa [hm] using h)
    · obtain ⟨outer, rfl, hrest⟩ := openAfter_otherwise_some h
      refine ih ?_ hrest
      cases hb with
      | opened hb hi => simpa using Opening.opened hb hi.before_else
    · exact ih (Opening.opened hb (Inside.whole Nested.empty)) (by simpa using h)
    · obtain ⟨outer, rfl, hrest⟩ := openAfter_terminator_some h
      refine ih ?_ hrest
      cases hb with
      | opened hb hi => simpa using hb.extend (Nested.block hi Nested.empty)

theorem nested_iff_openAfter : Nested ms ↔ openAfter [] ms = some [] := by
  constructor
  · exact openAfter_nested
  · intro h
    cases closing_of_openAfter h with
    | done h => exact h

end NodeScript.Block
