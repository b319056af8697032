import NodeScript.Proofs.Closed.Heaps
import NodeScript.Proofs.Limits.Texts

/-!
Limits of evaluation. Whatever a leaf is asked to do, it comes to an effect, unless one of the values
that it can get hold of is beyond a limit: an integer beyond the doubles, a text with too many digits
or brackets, a text with a half of a pair, which has no bytes, or tables that leave no level of
nesting free.
-/

namespace NodeScript

variable {room : Nat} {known : Tree → Prop} {h g : Heap} {α β : Type}

/-! ### What can be in the way -/

/-- The limit that a fault speaks of is exceeded by one of some trees. -/
inductive Exceeded (room : Nat) (known : Tree → Prop) : Fault → Prop
  | digits {s : String} {n : Nat} (hs : known (.text s)) (hlimit : digitLimit < n)
      (hcount : n ≤ Text.digitCount s.toList) : Exceeded room known (.integerTextTooLong n)
  | long {t : Tree} {n : Int} (ht : known t) (hn : n ∈ t.integers)
      (hlimit : 10 ^ digitLimit ≤ n.natAbs) : Exceeded room known .integerTooLong
  | large {t : Tree} {n : Int} (ht : known t) (hn : n ∈ t.integers)
      (hlimit : doubleLimit ≤ n.natAbs) : Exceeded room known .integerTooLarge
  | quotient {t : Tree} {n : Int} (ht : known t) (hn : n ∈ t.integers)
      (hlimit : doubleLimit ≤ n.natAbs) : Exceeded room known .quotientTooLarge
  | half {s : String} (halves : Text.HalfRun) (hs : known (.text s))
      (hhalf : Text.hasHalf s = true) : Exceeded room known (.noBytes halves)
  | brackets {s : String} (work : NestedWork) (hs : known (.text s))
      (hcount : room < Text.openingCount s.toList) : Exceeded room known (.tooDeep work)
  | nesting {t : Tree} (work : NestedWork) (ht : known t) (hdepth : room ≤ t.depth) :
      Exceeded room known (.tooDeep work)
  | noRoom (work : NestedWork) (hroom : room = 0) : Exceeded room known (.tooDeep work)

/-- An integer within the doubles, or one that stands in a known tree. -/
def TracedInt (known : Tree → Prop) (n : Int) : Prop :=
  n.natAbs < doubleLimit ∨ ∃ t, known t ∧ n ∈ t.integers

theorem TracedInt.exists_tree {n : Int} (hn : TracedInt known n) (hlarge : doubleLimit ≤ n.natAbs) :
    ∃ t, known t ∧ n ∈ t.integers :=
  hn.resolve_left (Nat.not_lt.2 hlarge)

theorem doubleLimit_le_of_long {n : Int} (h : 10 ^ digitLimit ≤ n.natAbs) :
    doubleLimit ≤ n.natAbs := by
  have hle : doubleLimit ≤ 10 ^ digitLimit :=
    calc doubleLimit ≤ 10 ^ 309 := by decide +kernel
      _ ≤ 10 ^ digitLimit := Nat.pow_le_pow_right (by decide) (by decide)
  exact hle.trans h

theorem TooLong.exceeded {ns : List Int} {f : Fault} (hf : TooLong ns f)
    (hns : ∀ n ∈ ns, TracedInt known n) : Exceeded room known f := by
  obtain ⟨hn, hlong⟩ := hf
  obtain ⟨t, ht, hmem⟩ := (hns _ hn).exists_tree (doubleLimit_le_of_long hlong)
  exact .long ht hmem hlong

/-- A number whose digits, if it is an integer, come from a known tree. -/
def Number.Traced (known : Tree → Prop) (a : Number) : Prop :=
  ∀ n ∈ a.integers, TracedInt known n

/-- A tree that nests no deeper than a known one and has no large integers but those of known
ones. -/
structure Tree.Traced (known : Tree → Prop) (t : Tree) : Prop where
  depth : t.depth = 0 ∨ ∃ u, known u ∧ t.depth ≤ u.depth
  integers : ∀ n ∈ t.integers, TracedInt known n

namespace Tree

variable {t : Tree} {f : Fault}

theorem Bounded.traced {u : Tree} (h : t.Bounded u.depth u.integers) (hu : known u) :
    t.Traced known :=
  ⟨.inr ⟨u, hu, h.depth_le⟩, fun _ hn => .inr ⟨u, hu, h.integers_sub hn⟩⟩

theorem Unshowable.exceeded (h : Unshowable room t f) (ht : t.Traced known) :
    Exceeded room known f := by
  cases h with
  | deep work h =>
    obtain h0 | ⟨u, hu, hle⟩ := ht.depth
    · omega
    · exact .nesting work hu (by omega)
  | long h => exact h.exceeded ht.integers

/-- A list of trees takes up one level more than they do. -/
theorem Unshowable.exceeded_of_list {ts : List Tree} (h : Unshowable room (.list ts) f)
    (hts : ∀ t ∈ ts, t.Traced known) : Exceeded room known f := by
  cases h with
  | deep work h =>
    cases room with
    | zero => exact .noRoom work rfl
    | succ room =>
      obtain ⟨t, ht, hdepth⟩ : ∃ t ∈ ts, room < t.depth := by
        by_contra hnone
        have hle : depthList ts ≤ room := depthList_le_iff.2 fun t ht =>
          Nat.le_of_not_lt fun hlt => hnone ⟨t, ht, hlt⟩
        change room + 1 < depthList ts + 1 at h
        omega
      obtain h0 | ⟨u, hu, hle⟩ := (hts t ht).depth
      · omega
      · exact .nesting work hu (by omega)
  | long h =>
    refine h.exceeded fun n hn => ?_
    obtain ⟨t, ht, hn⟩ := mem_integersList.1 hn
    exact (hts t ht).integers n hn

end Tree

/-- A value whose picture is traced, now and in all later heaps. -/
def Value.Shown (known : Tree → Prop) (h : Heap) (v : Value) : Prop :=
  ∀ g, h.Extends g → (g.tree v).Traced known

/-- A value of the heap that is shown so and, if it is a text, known itself. -/
structure Value.Traced (known : Tree → Prop) (h : Heap) (v : Value) : Prop where
  within : v.Within h
  shown : v.Shown known h
  text : ∀ s, v = .text s → s = "" ∨ known (.text s)

namespace Value.Traced

variable {v : Value}

theorem later (hv : v.Traced known h) (hg : h.Extends g) : v.Traced known g :=
  ⟨hv.within.later hg.grows, fun k hk => hv.shown k (hg.trans hk), hv.text⟩

theorem nil : Value.nil.Traced known h :=
  ⟨trivial, fun _ _ => ⟨.inl rfl, nofun⟩, nofun⟩

theorem emptyText : (Value.text "").Traced known h :=
  ⟨trivial, fun _ _ => ⟨.inl rfl, nofun⟩, fun _ hs => .inl (Value.text.inj hs).symm⟩

theorem int {n : Int} (hn : TracedInt known n) : (Value.int n).Traced known h :=
  ⟨trivial, fun _ _ => ⟨.inl rfl, fun _ hm => List.mem_singleton.1 hm ▸ hn⟩, nofun⟩

theorem stored {t : Tree} (ht : known t) (hv : (h.store t).1.Within (h.store t).2) :
    (h.store t).1.Traced known (h.store t).2 := by
  refine ⟨hv, fun g hg => (Heap.tree_store t h hg).traced ht, fun s hs => .inr ?_⟩
  have htext : t = .text s := by
    cases t with
    | text s' => exact congrArg Tree.text (Value.text.inj hs)
    | _ => cases hs
  exact htext ▸ ht

end Value.Traced

theorem Literal.Unreadable.exceeded {s : String} {f : Fault} (hf : Unreadable room s.toList f)
    (hs : known (.text s)) : Exceeded room known f := by
  cases hf with
  | digits n hlimit hcount => exact .digits hs hlimit hcount
  | brackets work hcount => exact .brackets work hs hcount

/-- What texts among the known trees mean is known too. -/
structure ClosedUnderReading (room : Nat) (known : Tree → Prop) : Prop where
  literal {s : String} {t : Tree} : known (.text s) → Literal.read room s = .ok t → known t
  number {s : String} {n : Number} : known (.text s) → Number.ofText? s = some n → known (.number n)

theorem Value.Traced.toNumber? (hknown : ClosedUnderReading room known) {v : Value}
    (hv : v.Traced known h) {n : Number} (hn : v.toNumber? = some n) : n.Traced known := by
  cases v with
  | number a =>
    cases hn
    exact (hv.shown h (.refl h)).integers
  | text s =>
    obtain rfl | hs := hv.text s rfl
    · cases hn
    · exact fun k hk => .inr ⟨.number n, hknown.number hs hn, hk⟩
  | _ => cases hn

/-! ### Computations -/

/-- A draft that goes on from a heap: a later heap, still closed, and as many levels free. -/
structure Draft.Follows (room : Nat) (h : Heap) (d : Draft) : Prop where
  later : h.Extends d.heap
  closed : d.heap.Closed
  room_eq : d.room = room

namespace Draft.Follows

variable {d d' : Draft}

theorem self (hd : d.Follows room h) : d.Follows room d.heap :=
  ⟨.refl _, hd.closed, hd.room_eq⟩

theorem trans (hd : d.Follows room h) (hd' : d'.Follows room d.heap) : d'.Follows room h :=
  ⟨hd.later.trans hd'.later, hd'.closed, hd'.room_eq⟩

end Draft.Follows

namespace Eval

variable {E : Fault → Prop} {Q : Heap → α → Prop} {R : Heap → β → Prop}

/-- From every draft that goes on from the heap the evaluation leads to one that goes on from there,
and to a result with some property in its heap or to a fault of some sort. -/
def Ends (E : Fault → Prop) (room : Nat) (h : Heap) (Q : Heap → α → Prop) (x : Eval α) : Prop :=
  ∀ d : Draft, d.Follows room h →
    match x d with
    | .ok a d' => d'.Follows room d.heap ∧ Q d'.heap a
    | .error f d' => d'.Follows room d.heap ∧ E f

/-- There is such a result unless a limit is exceeded. -/
abbrev Yields (room : Nat) (known : Tree → Prop) (h : Heap) (Q : Heap → α → Prop) (x : Eval α) :
    Prop :=
  Ends (Exceeded room known) room h Q x

/-- The same without any claim about the result. -/
abbrev Succeeds (room : Nat) (known : Tree → Prop) (h : Heap) (x : Eval α) : Prop :=
  Yields room known h (fun _ _ => True) x

namespace Ends

theorem pure {a : α} (ha : ∀ g, h.Extends g → Q g a) : Ends E room h Q (Pure.pure a : Eval α) :=
  fun d hd => ⟨hd.self, ha d.heap hd.later⟩

theorem bind {x : Eval α} {f : α → Eval β} (hx : Ends E room h Q x)
    (hf : ∀ a g, h.Extends g → Q g a → Ends E room g R (f a)) : Ends E room h R (x >>= f) := by
  intro d hd
  have hr := hx d hd
  simp only [Bind.bind, EStateM.bind]
  generalize x d = r at hr
  cases r with
  | error f d' => exact hr
  | ok a d' =>
    obtain ⟨hd', ha⟩ := hr
    have hnext := hf a d'.heap (hd.later.trans hd'.later) ha d' hd'.self
    dsimp only
    generalize f a d' = r at hnext
    cases r with
    | error f d'' => exact ⟨hd'.trans hnext.1, hnext.2⟩
    | ok b d'' => exact ⟨hd'.trans hnext.1, hnext.2⟩

/-- A first part whose result does not matter. -/
theorem andThen {x : Eval α} {f : α → Eval β} (hx : Ends E room h (fun _ _ => True) x)
    (hf : ∀ a g, h.Extends g → Ends E room g R (f a)) : Ends E room h R (x >>= f) :=
  bind hx fun a g hg _ => hf a g hg

theorem weaken {E' : Fault → Prop} {Q' : Heap → α → Prop} {x : Eval α} (hx : Ends E room h Q x)
    (hE : ∀ f, E f → E' f) (hQ : ∀ g a, h.Extends g → Q g a → Q' g a) : Ends E' room h Q' x := by
  intro d hd
  have hr := hx d hd
  generalize x d = r at hr
  cases r with
  | error f d' => exact ⟨hr.1, hE f hr.2⟩
  | ok a d' => exact ⟨hr.1, hQ _ a (hd.later.trans hr.1.later) hr.2⟩

end Ends

theorem ends_lift {e : Except Fault α} (he : ∀ a, e = .ok a → ∀ g, h.Extends g → Q g a)
    (hf : FailsBy E e) : Ends E room h Q (lift e) := by
  cases e with
  | ok a => exact .pure (he a rfl)
  | error f => exact fun _ hd => ⟨hd.self, hf f rfl⟩

theorem ends_ask {f : Heap → Nat → Except Fault α}
    (hf : ∀ g, h.Extends g → (∀ a, f g room = .ok a → Q g a) ∧ FailsBy E (f g room)) :
    Ends E room h Q (ask f) := by
  intro d hd
  obtain ⟨hok, hfails⟩ := hf d.heap hd.later
  have happly : ask f d = lift (f d.heap room) d := by
    rw [← hd.room_eq]
    rfl
  rw [happly]
  cases hr : f d.heap room with
  | ok a => exact ⟨hd.self, hok a hr⟩
  | error e => exact ⟨hd.self, hfails e hr⟩

theorem ends_warn (message : String) : Ends E room h (fun _ _ => True) (warn message) :=
  fun _ hd => ⟨⟨.refl _, hd.closed, hd.room_eq⟩, trivial⟩

theorem ends_kindName (v : Value) : Ends E room h (fun _ _ => True) (kindName v) :=
  fun _ hd => ⟨hd.self, trivial⟩

/-- What a table contains lies in the heap. -/
theorem ends_get : Ends E room h (fun g d => ∀ a, (d.heap.get a).Within g)
    (MonadState.get : Eval Draft) :=
  fun _ hd => ⟨hd.self, hd.closed.get_within⟩

theorem ends_table? (v : Value) :
    Ends E room h (fun g r => ∀ a t, r = some (a, t) → t.Within g) (table? v) := by
  cases v with
  | table a =>
    refine fun d hd => ⟨hd.self, fun b t hr => ?_⟩
    cases hr
    exact hd.closed.get_within a
  | _ => exact .pure fun _ _ _ _ hr => nomatch hr

theorem ends_alloc {t : Table} (ht : t.Within h) :
    Ends E room h (fun g v => v.Within g) (alloc t) := by
  intro d hd
  have hclosed := hd.closed.alloc (ht.later hd.later.grows)
  have hsize : d.heap.size < (d.heap.alloc t).2.size := by simp [Heap.size, Heap.alloc]
  exact ⟨⟨d.heap.extends_alloc t, hclosed, hd.room_eq⟩, hsize⟩

/-- A mark of its own adds no digits. -/
theorem ends_newNumber {n : Number} (hn : n.Within h) :
    Ends E room h (fun g m => m.Within g ∧ m.integers ⊆ n.integers) (newNumber n) := by
  intro d hd
  obtain ⟨hclosed, hm⟩ := hd.closed.mark (hn.later hd.later.grows)
  exact ⟨⟨d.heap.extends_mark n, hclosed, hd.room_eq⟩, hm, d.heap.integers_mark n⟩

section Showing

variable {v : Value} (hv : v.Shown known h)

include hv

theorem succeeds_display : Succeeds room known h (display v) :=
  ends_ask fun g hg => ⟨fun _ _ => trivial, fun f hf =>
    ((g.tree v).display_failsBy room f hf).exceeded (hv g hg)⟩

theorem succeeds_plain : Succeeds room known h (plain v) :=
  ends_ask fun g hg => ⟨fun _ _ => trivial, fun f hf =>
    ((g.tree v).plain_failsBy room f hf).exceeded (hv g hg)⟩

theorem succeeds_scriptText : Succeeds room known h (scriptText v) :=
  ends_ask fun g hg => ⟨fun _ _ => trivial, fun f hf =>
    ((g.tree v).scriptText_failsBy room f hf).exceeded (hv g hg)⟩

end Showing

theorem literal_apply (v : Value) (d : Draft) :
    literal v d =
      match d.heap.literal d.room v with
      | .ok (w, heap) => .ok w { d with heap }
      | .error f => .error f d := by
  have hask : ask (fun h room => h.literal room v) d = lift (d.heap.literal d.room v) d := rfl
  simp only [literal, Bind.bind, EStateM.bind] at hask ⊢
  rw [hask]
  cases d.heap.literal d.room v <;> rfl

section Reading

variable (hknown : ClosedUnderReading room known) {v : Value} (hv : v.Traced known h)

include hknown hv

theorem yields_toNumber? :
    Yields room known h (fun g n? => ∀ n, n? = some n → n.Within g ∧ n.Traced known)
      (toNumber? v) := by
  unfold toNumber?
  cases hn : v.toNumber? with
  | none => exact .pure fun _ _ => nofun
  | some n =>
    refine .bind (ends_newNumber (hv.within.toNumber? hn)) fun m g _ hm => .pure fun k hk m' hm' => ?_
    obtain rfl := Option.some.inj hm'
    exact ⟨hm.1.later hk.grows, fun i hi => hv.toNumber? hknown hn i (hm.2 hi)⟩

theorem yields_literal : Yields room known h (fun g w => w.Traced known g) (literal v) := by
  intro d hd
  obtain rfl := hd.room_eq
  rw [literal_apply]
  cases v with
  | text s =>
    obtain rfl | hs := hv.text s rfl
    · exact ⟨hd.self, .emptyText⟩
    · cases hr : Literal.read d.room s with
      | error f =>
        simp only [Heap.literal, hr]
        exact ⟨hd.self, (Literal.read_eq_error hr).exceeded hs⟩
      | ok t =>
        obtain ⟨hclosed, hwithin⟩ := hd.closed.store hr
        simp only [Heap.literal, hr]
        exact ⟨⟨d.heap.extends_build t [], hclosed, rfl⟩, .stored (hknown.literal hs hr) hwithin⟩
  | _ => exact ⟨hd.self, hv.later hd.later⟩

end Reading

end Eval

end NodeScript
