import NodeScript.Proofs.Limits.Evaluation

/-!
Leaves at the limits of evaluation. Whatever a leaf is asked to do, it comes to an effect that
mentions only what the heap holds, unless one of the values that it can get hold of is beyond a
limit.
-/

namespace NodeScript

variable {room : Nat} {known : Tree → Prop} {h g : Heap}

/-! ### Effects -/

/-- An effect that mentions only what the heap holds. -/
structure Effect.Within (h : Heap) (e : Effect) : Prop where
  binding : ∀ name v, e.binding = some (name, v) → v.Within h
  write : ∀ a t, e.write = some (a, t) → t.Within h

namespace Eval

variable {e : Effect}

/-- The evaluation comes to such an effect unless a limit is exceeded. -/
abbrev Acts (room : Nat) (known : Tree → Prop) (h : Heap) (x : Eval Effect) : Prop :=
  Yields room known h (fun g e => e.Within g) x

theorem acts_quiet (hb : e.binding = none) (hw : e.write = none) :
    Acts room known h (Pure.pure e) :=
  .pure fun _ _ => ⟨fun _ _ hr => by simp [hb] at hr, fun _ _ hr => by simp [hw] at hr⟩

theorem acts_binding {name : String} {v : Value} (hb : e.binding = some (name, v))
    (hw : e.write = none) (hv : v.Within h) : Acts room known h (Pure.pure e) := by
  refine .pure fun g hg => ⟨fun name' v' hr => ?_, fun _ _ hr => by simp [hw] at hr⟩
  obtain ⟨-, rfl⟩ := Prod.mk.inj (Option.some.inj (hb.symm.trans hr))
  exact hv.later hg.grows

theorem acts_writing {a : Address} {t : Table} (hb : e.binding = none)
    (hw : e.write = some (a, t)) (ht : t.Within h) : Acts room known h (Pure.pure e) := by
  refine .pure fun g hg => ⟨fun _ _ hr => by simp [hb] at hr, fun a' t' hr => ?_⟩
  obtain ⟨-, rfl⟩ := Prod.mk.inj (Option.some.inj (hw.symm.trans hr))
  exact ht.later hg.grows

end Eval

/-! ### Operands -/

def Scope.Traced (known : Tree → Prop) (h : Heap) (s : Scope) : Prop :=
  ∀ name v, s.bindings.get? name = some v → v.Traced known h

variable {scope : Scope}

theorem Scope.Traced.later (hs : scope.Traced known h) (hg : h.Extends g) : scope.Traced known g :=
  fun name v hv => (hs name v hv).later hg

theorem Scope.Traced.get (hs : scope.Traced known h) (name : String) {absent : Value}
    (ha : absent.Traced known h) : (scope.get name absent).Traced known h := by
  unfold Scope.get
  cases hv : scope.bindings.get? name with
  | none => exact ha
  | some v => exact hs name v hv

theorem TracedInt.zero : TracedInt known 0 := .inl (by decide +kernel)

theorem Number.Oversized.exceeded {a b : Number} {f : Fault} (h : Oversized a b)
    (hf : f = .integerTooLarge ∨ f = .quotientTooLarge) (ha : a.Traced known)
    (hb : b.Traced known) : Exceeded room known f := by
  obtain ⟨n, hn, hlarge⟩ := h
  have hint : TracedInt known n := by
    obtain rfl | rfl := hn
    · exact ha n (List.mem_singleton_self n)
    · exact hb n (List.mem_singleton_self n)
  obtain ⟨t, ht, hmem⟩ := hint.exists_tree hlarge
  obtain rfl | rfl := hf
  · exact .large ht hmem hlarge
  · exact .quotient ht hmem hlarge

theorem Number.toFloat_failsBy {a : Number} (ha : a.Traced known) :
    FailsBy (Exceeded room known) a.toFloat := by
  intro f hf
  obtain ⟨hf, n, hn, hlarge⟩ := toFloat_eq_error hf
  exact Oversized.exceeded ⟨n, .inl hn, hlarge⟩ (.inl hf) ha ha

theorem Operation.apply_failsBy (op : Operation) {a b : Number} (ha : a.Traced known)
    (hb : b.Traced known) : FailsBy (Exceeded room known) (op.apply a b) := by
  have hlift {onInts : Int → Int → Int} {onFloats : Float → Float → Float} :
      FailsBy (Exceeded room known) (Number.lift onInts onFloats a b) := by
    intro f hf
    obtain ⟨hf, hover⟩ := Number.lift_eq_error hf
    exact hover.exceeded (.inl hf) ha hb
  cases op with
  | add => exact hlift.bind fun _ => .ok _
  | subtract => exact hlift.bind fun _ => .ok _
  | multiply => exact hlift.bind fun _ => .ok _
  | divide =>
    unfold apply
    dsimp only
    split
    · exact .ok _
    · next hzero =>
      refine FailsBy.bind (fun f hf => ?_) fun _ => .ok _
      obtain ⟨hf, hover⟩ := Number.div_eq_error (Bool.eq_false_iff.2 hzero) hf
      exact hover.exceeded hf ha hb
  | modulo =>
    unfold apply
    dsimp only
    split
    · exact .ok _
    · exact hlift.bind fun _ => .ok _
  | power =>
    unfold apply
    dsimp only
    split <;> exact .ok _
  | unknown name => exact .ok _

section

open Eval

section

variable (hknown : ClosedUnderReading room known) (hs : scope.Traced known h)

include hknown hs

theorem yields_readOperand (useVariable : Bool) (name : Option String) {given absent : Value}
    (hgiven : given.Traced known h) (ha : absent.Traced known h) :
    Yields room known h (fun g v => v.Traced known g)
      (readOperand scope useVariable name given absent) := by
  unfold readOperand
  split
  · exact .pure fun g hg => (hs.get _ ha).later hg
  · exact yields_literal hknown hgiven

theorem Source.yields_resolve {s : Source} (hv : s.value.Traced known h) :
    Yields room known h (fun g v => v.Traced known g) (s.resolve scope) := by
  unfold resolve
  split
  · exact .pure fun g hg => (hs.get _ .nil).later hg
  · refine .andThen (ends_kindName _) fun kind g _ => ?_
    exact .andThen (ends_warn _) fun _ g _ => .pure fun _ _ => .nil
  · exact yields_literal hknown hv

theorem Source.yields_resolveAll {sources : List Source}
    (hsources : ∀ s ∈ sources, s.value.Traced known h) :
    Yields room known h (fun g vs => ∀ v ∈ vs, v.Traced known g) (resolveAll scope sources) := by
  induction sources generalizing h with
  | nil => exact .pure fun _ _ => nofun
  | cons s rest ih =>
    obtain ⟨hhead, htail⟩ := List.forall_mem_cons.1 hsources
    refine .bind (yields_resolve hknown hs hhead) fun v g hg hv => ?_
    refine .bind (ih (hs.later hg) fun s hmem => (htail s hmem).later hg) fun vs k hk hvs => ?_
    exact .pure fun _ hext => List.forall_mem_cons.2
      ⟨(hv.later hk).later hext, fun w hw => (hvs w hw).later hext⟩

/-! ### Arithmetic and waiting -/

theorem Arithmetic.yields_operand (useVariable : Bool) (name : Option String) {given : Value}
    (hgiven : given.Traced known h) :
    Yields room known h (fun _ n => n.Traced known) (operand scope useVariable name given) := by
  refine .bind (yields_readOperand hknown hs useVariable name hgiven (.int .zero))
    fun v g hg hv => ?_
  split
  · next n hn => exact .pure fun _ _ => hv.toNumber? hknown hn
  · refine .andThen (succeeds_display (hgiven.later hg).shown) fun _ _ _ => ?_
    refine .andThen (ends_warn _) fun _ _ _ => .pure fun _ _ n hn => ?_
    exact List.mem_singleton.1 hn ▸ .zero

theorem Arithmetic.acts {c : Arithmetic} (h1 : c.value1.Traced known h)
    (h2 : c.value2.Traced known h) : Acts room known h (c.eval scope) := by
  refine .bind (yields_operand hknown hs _ _ h1) fun a g hg ha => ?_
  refine .bind (yields_operand hknown (hs.later hg) _ _ (h2.later hg)) fun b k _ hb => ?_
  have hresult : Yields room known k (fun _ r => ∀ n, r = .number n → n.Within k)
      (Eval.lift ((Operation.ofName c.operation).apply a b)) :=
    ends_lift (fun r hr _ _ n hn => Operation.within_apply (hn ▸ hr))
      (Operation.apply_failsBy _ ha hb)
  refine .bind hresult fun result l hl hn => ?_
  cases result with
  | number n =>
    refine .bind (ends_newNumber ((hn n rfl).later hl.grows)) fun m _ _ hm => ?_
    exact acts_binding rfl rfl hm.1
  | undefined reason => exact .andThen (ends_warn _) fun _ _ _ => acts_binding rfl rfl trivial

theorem Wait.acts {c : Wait} (hc : c.duration.Traced known h) :
    Acts room known h (c.eval scope) := by
  refine .bind (yields_readOperand hknown hs _ _ hc (.int .zero)) fun v g hg _ => ?_
  dsimp only
  split
  · exact acts_quiet rfl rfl
  · refine .andThen (succeeds_display (hc.later hg).shown) fun _ _ _ => ?_
    exact .andThen (ends_warn _) fun _ _ _ => acts_quiet rfl rfl

/-! ### Variables -/

theorem SetVariable.yields_newValue {c : SetVariable} (hc : c.value.Traced known h)
    (name : String) :
    Yields room known h (fun g v => v.Within g) (c.newValue name scope) := by
  unfold newValue
  split
  · refine .bind (yields_toNumber? hknown hc) fun n? g hg hn => ?_
    split
    · next n => exact .pure fun k hk => (hn n rfl).1.later hk.grows
    · refine .andThen (succeeds_plain (hc.later hg).shown) fun shown _ _ => ?_
      exact .andThen (ends_warn _) fun _ _ _ => .pure fun _ _ => trivial
  · split
    · exact .pure fun _ _ => trivial
    · exact .andThen (succeeds_plain hc.shown) fun _ _ _ => .pure fun _ _ => trivial
  · exact .pure fun _ _ => trivial
  · refine .andThen (succeeds_plain hc.shown) fun shown g hg => .pure fun k hk => ?_
    exact (hs.get shown .nil).within.later (hg.trans hk).grows
  · exact (yields_literal hknown hc).weaken (fun _ => id) fun _ _ _ hv => hv.within
  · split
    · exact .pure fun _ _ => trivial
    · exact .andThen (succeeds_plain hc.shown) fun _ _ _ => .pure fun _ _ => trivial

theorem SetVariable.acts {c : SetVariable} (hc : c.value.Traced known h) :
    Acts room known h (c.eval scope) := by
  unfold eval
  split
  · exact acts_quiet rfl rfl
  · exact .bind (yields_newValue hknown hs hc _) fun v _ _ hv => acts_binding rfl rfl hv

theorem ReadVariable.acts {c : ReadVariable} (hc : c.defaultValue.Traced known h) :
    Acts room known h (c.eval scope) := by
  refine .bind (yields_literal hknown hc) fun absent g hg ha => ?_
  have hv := ((hs.later hg).get c.variableName ha).within
  refine .pure fun k hk => ⟨fun name v hr => ?_, nofun⟩
  obtain ⟨_, -, ⟨⟩⟩ := Option.map_eq_some_iff.1 hr
  exact hv.later hk.grows

end

theorem Print.acts {c : Print} (hs : scope.Traced known h) (hc : c.message.Traced known h) :
    Acts room known h (c.eval scope) := by
  have hmessage : Succeeds room known h (c.message? scope) := by
    unfold message?
    split
    · dsimp only
      split
      · exact .andThen (succeeds_scriptText (hs.get _ .nil).shown) fun _ _ _ =>
          .pure fun _ _ => trivial
      · exact .pure fun _ _ => trivial
    · split
      · exact .pure fun _ _ => trivial
      · exact .andThen (succeeds_scriptText hc.shown) fun _ _ _ => .pure fun _ _ => trivial
  exact .andThen hmessage fun _ _ _ => acts_quiet rfl rfl

/-! ### Conversions and vectors -/

namespace Conversion

variable {c : Conversion}

theorem yields_input (hknown : ClosedUnderReading room known) (hs : scope.Traced known h)
    (hc : c.inputValue.Traced known h) :
    Yields room known h (fun g r => ∀ name v, r = .ok (name, v) → v.Traced known g)
      (c.input scope) := by
  unfold input
  split
  · exact .pure fun _ _ => nofun
  · split
    · split
      · exact .pure fun _ _ => nofun
      · refine .pure fun g hg name v hv => ?_
        cases hv
        exact (hs.get _ .nil).later hg
    · refine .bind (yields_literal hknown hc) fun w g _ hw => .pure fun k hk name v hv => ?_
      cases hv
      exact hw.later hk

theorem acts_withInput (hknown : ClosedUnderReading room known) (hs : scope.Traced known h)
    (hc : c.inputValue.Traced known h) (action : String) {go : String → Value → Eval Effect}
    (hgo : ∀ name g v, h.Extends g → v.Traced known g → Acts room known g (go name v)) :
    Acts room known h (c.withInput action scope go) := by
  refine .bind (yields_input hknown hs hc) fun r g hg hr => ?_
  match r with
  | .error message => exact acts_quiet rfl rfl
  | .ok (name, v) => exact hgo name g v hg (hr name v rfl)

/-- A base that is an integer is written as one before it is read. -/
theorem succeeds_usedBase (hbase : ∀ n, c.base = some (.int n) → TracedInt known n) :
    Succeeds room known h c.usedBase := by
  unfold usedBase
  split
  · exact .pure fun _ _ => trivial
  · next base hgiven =>
    have htext : FailsBy (Exceeded room known) base.text? ∧
        FailsBy (Exceeded room known) base.display := by
      cases base with
      | text s => exact ⟨.ok _, .ok _⟩
      | int n =>
        have hn : TracedInt known n := hbase n (Option.filter_eq_some_iff.1 hgiven).1
        have hint : FailsBy (Exceeded room known) (Number.integerText n) := fun f hf =>
          ((Number.int n).text_failsBy .plain f hf).exceeded fun m hm =>
            List.mem_singleton.1 hm ▸ hn
        exact ⟨hint, hint⟩
    have hignore (g : Heap) : Succeeds room known g (usedBase.ignore base) := by
      refine .andThen (ends_lift (fun _ _ _ _ => trivial) htext.2) fun _ _ _ => ?_
      exact .andThen (ends_warn _) fun _ _ _ => .pure fun _ _ => trivial
    refine .andThen (ends_lift (fun _ _ _ _ => trivial) htext.1) fun _ g _ => ?_
    split
    · split
      · exact .pure fun _ _ => trivial
      · exact hignore g
    · exact hignore g

section

variable (hknown : ClosedUnderReading room known) (hs : scope.Traced known h)
  (hc : c.inputValue.Traced known h)

include hknown hs hc

theorem typeCheck_acts : Acts room known h (c.typeCheck scope) :=
  acts_withInput hknown hs hc _ fun _ _ _ _ _ => acts_binding rfl rfl trivial

theorem toText_acts : Acts room known h (c.toText scope) :=
  acts_withInput hknown hs hc _ fun _ _ _ _ hv =>
    .andThen (succeeds_scriptText hv.shown) fun _ _ _ => acts_binding rfl rfl trivial

theorem toNumber_acts (hbase : ∀ n, c.base = some (.int n) → TracedInt known n) :
    Acts room known h (c.toNumber scope) := by
  refine acts_withInput hknown hs hc _ fun _ g v _ hv => ?_
  refine .andThen (succeeds_usedBase hbase) fun base k hk => ?_
  have hv := hv.later hk
  have hnumber {l : Heap} {n? : Option Number} (hn : ∀ n, n? = some n → n.Within l) :
      (Value.ofOption (n?.map .number)).Within l := by
    cases n? with
    | none => trivial
    | some n => exact hn n rfl
  cases base with
  | none =>
    change Acts room known k (do let number? ← Eval.toNumber? v; pure _)
    refine .bind (yields_toNumber? hknown hv) fun n? _ _ hn => ?_
    exact acts_binding rfl rfl (hnumber fun n hr => (hn n hr).1)
  | some base =>
    cases v with
    | text s => exact acts_binding rfl rfl (hnumber fun _ => Value.within_toNumberIn?)
    | _ =>
      exact .andThen (succeeds_scriptText hv.shown) fun _ _ _ =>
        acts_binding rfl rfl (hnumber fun _ => Value.within_toNumberIn?)

end

end Conversion

/-- A coordinate that is no number counts as zero. -/
theorem MakeVector.yields_number (hknown : ClosedUnderReading room known) (axis : String)
    {v source : Value} (hv : v.Traced known h) (hsource : source.Traced known h) :
    Yields room known h (fun g r => ∀ n, r = .ok n → n.Within g) (do
      match ← Eval.toNumber? v with
      | some n => return .ok n
      | none =>
        let shown ← Eval.display source
        Eval.warn s!"Vector3 {axis} coordinate {shown} is not a number. Using 0."
        return .ok (.int 0) : Eval (Except String Number)) := by
  refine .bind (yields_toNumber? hknown hv) fun n? k hk hn => ?_
  cases n? with
  | some n =>
    refine .pure fun l hl m hm => ?_
    cases hm
    exact (hn n rfl).1.later hl.grows
  | none =>
    refine .andThen (succeeds_display (hsource.later hk).shown) fun _ _ _ => ?_
    refine .andThen (ends_warn _) fun _ _ _ => .pure fun _ _ m hm => ?_
    cases hm
    trivial

theorem MakeVector.yields_coordinate (hknown : ClosedUnderReading room known)
    (hs : scope.Traced known h) (axis : String) (useVariable : Bool) {source : Value}
    (hsource : source.Traced known h) :
    Yields room known h (fun g r => ∀ n, r = .ok n → n.Within g)
      (coordinate scope axis useVariable source) := by
  unfold coordinate
  cases useVariable with
  | false =>
    exact .bind (yields_literal hknown hsource) fun _ _ hg hv =>
      yields_number hknown axis hv (hsource.later hg)
  | true =>
    cases validNameOf? source with
    | none =>
      simp only [pure_bind]
      refine .andThen (succeeds_plain hsource.shown) fun _ _ _ => .pure fun _ _ n hn => ?_
      cases hn
    | some name => exact yields_number hknown axis (hs.get name .nil) hsource

theorem MakeVector.yields_vector {c : MakeVector} (hknown : ClosedUnderReading room known)
    (hs : scope.Traced known h) (hx : c.x.Traced known h) (hy : c.y.Traced known h)
    (hz : c.z.Traced known h) :
    Yields room known h (fun g r => ∀ v, r = .ok v → (Value.vector v).Within g)
      (c.vector scope) := by
  refine .bind (yields_coordinate hknown hs "X" _ hx) fun rx g hg hxs => ?_
  cases rx with
  | error message => exact .pure fun _ _ => nofun
  | ok x =>
    refine .bind (yields_coordinate hknown (hs.later hg) "Y" _ (hy.later hg))
      fun ry k hk hys => ?_
    cases ry with
    | error message => exact .pure fun _ _ => nofun
    | ok y =>
      have hext := hg.trans hk
      refine .bind (yields_coordinate hknown (hs.later hext) "Z" _ (hz.later hext))
        fun rz l hl hzs => ?_
      cases rz with
      | error message => exact .pure fun _ _ => nofun
      | ok z =>
        refine .pure fun m hm v hv => ?_
        cases hv
        exact ⟨(hxs x rfl).later ((hk.trans hl).trans hm).grows,
          (hys y rfl).later (hl.trans hm).grows, (hzs z rfl).later hm.grows⟩

theorem MakeVector.acts {c : MakeVector} (hknown : ClosedUnderReading room known)
    (hs : scope.Traced known h) (hx : c.x.Traced known h) (hy : c.y.Traced known h)
    (hz : c.z.Traced known h) : Acts room known h (c.eval scope) := by
  unfold eval
  split
  · exact acts_quiet rfl rfl
  · refine .bind (yields_vector hknown hs hx hy hz) fun r g _ hr => ?_
    cases r with
    | error message => exact acts_quiet rfl rfl
    | ok v => exact acts_binding rfl rfl (hr v rfl)

/-! ### Texts -/

theorem Concatenate.acts {c : Concatenate} (hs : scope.Traced known h)
    (h1 : c.string1.Traced known h) (h2 : c.string2.Traced known h) :
    Acts room known h (c.eval scope) := by
  have hpart {g : Heap} (hg : h.Extends g) (useVariable : Bool) (name : Option String)
      {given : Value} (hgiven : given.Traced known h) :
      Succeeds room known g (part scope useVariable name given) := by
    unfold part
    split
    · exact succeeds_scriptText ((hs.get _ .emptyText).later hg).shown
    · split
      · exact succeeds_scriptText Value.Traced.emptyText.shown
      · exact succeeds_scriptText (hgiven.later hg).shown
  refine .andThen (hpart (.refl h) _ _ h1) fun _ g hg => ?_
  exact .andThen (hpart hg _ _ h2) fun _ _ _ => acts_binding rfl rfl trivial

theorem FormatText.fill_failsBy {pieces : List Piece} {args : List Value}
    (hargs : ∀ v ∈ args, v.Traced known h) :
    FailsBy (Exceeded room known) (fill h room pieces args) := by
  fun_induction fill h room pieces args with
  | case1 => exact .ok _
  | case2 args c ps ih => exact (ih hargs).bind fun _ => .ok _
  | case3 ps args ih =>
    have hhead : (args.head?.getD .nil).Traced known h := by
      cases args with
      | nil => exact .nil
      | cons v vs => exact hargs v List.mem_cons_self
    refine FailsBy.bind (fun f hf => ?_) fun _ => ?_
    · exact ((h.tree _).scriptText_failsBy room f hf).exceeded (hhead.shown h (.refl h))
    · exact (ih fun v hv => hargs v (List.mem_of_mem_tail hv)).bind fun _ => .ok _

theorem FormatText.acts {c : FormatText} (hknown : ClosedUnderReading room known)
    (hs : scope.Traced known h) (hargs : ∀ s ∈ c.arguments, s.value.Traced known h) :
    Acts room known h (c.eval scope) := by
  unfold eval
  split
  · exact acts_quiet rfl rfl
  · refine .bind (Source.yields_resolveAll hknown hs hargs) fun args g _ hargs => ?_
    refine .andThen (ends_ask fun k hk => ⟨fun _ _ => trivial,
      fill_failsBy fun v hv => (hargs v hv).later hk⟩) fun _ _ _ => ?_
    dsimp only
    split
    · exact .andThen (ends_warn _) fun _ _ _ => acts_binding rfl rfl trivial
    · exact acts_binding rfl rfl trivial

theorem Text.any_isHalf_of_halfRun? {ls : List Letter} {passed : Nat} {halves : HalfRun}
    (hr : halfRun? passed ls = some halves) : ls.any Letter.isHalf = true := by
  induction ls generalizing passed with
  | nil => cases hr
  | cons l ls ih =>
    cases l with
    | char c => exact ih hr
    | half index => rfl

/-- The bytes of a text can be counted, unless it has a half of a pair. -/
theorem TextLength.bytes_failsBy {s : String} (hs : s = "" ∨ known (.text s)) :
    FailsBy (Exceeded room known) (bytes s) := by
  intro f hf
  unfold bytes at hf
  dsimp only at hf
  split at hf
  · next halves hr =>
    cases hf
    obtain rfl | hs := hs
    · cases hr
    · exact .half halves hs (Text.any_isHalf_of_halfRun? hr)
  · cases hf

theorem TextLength.acts {c : TextLength} (hs : scope.Traced known h)
    (hvalue : ∀ v ∈ c.inputValue.toList.map Value.text, v.Traced known h) :
    Acts room known h (c.eval scope) := by
  have hinput : (if c.useVariable then scope.get (c.inputVariable.getD "")
      else .text (c.inputValue.getD "") : Value).Traced known h := by
    split
    · exact hs.get _ .nil
    · cases hgiven : c.inputValue with
      | none => exact .emptyText
      | some s => exact hvalue _ (by simp [hgiven])
  unfold eval
  split
  · exact acts_quiet rfl rfl
  · dsimp only
    split
    · next s htext =>
      rw [htext] at hinput
      refine .andThen (ends_lift (fun _ _ _ _ => trivial) (bytes_failsBy (hinput.text s rfl)))
        fun _ _ _ => ?_
      exact acts_binding rfl rfl trivial
    · exact acts_quiet rfl rfl

/-! ### Tables -/

/-- A key of the heap whose digits, if it is a number, come from a known tree. -/
structure Key.Traced (known : Tree → Prop) (h : Heap) (k : Key) : Prop where
  within : k.value.Within h
  integers : ∀ n ∈ k.integers, TracedInt known n

namespace Key.Traced

variable {k : Key}

theorem later (hk : k.Traced known h) (hg : h.Extends g) : k.Traced known g :=
  ⟨hk.within.later hg.grows, hk.integers⟩

theorem text (s : String) : (Key.text s).Traced known h := ⟨trivial, nofun⟩

theorem shown (hk : k.Traced known h) : k.value.Shown known h := by
  intro g _
  cases k with
  | number n => exact ⟨.inl rfl, hk.integers⟩
  | _ => exact ⟨.inl rfl, nofun⟩

end Key.Traced

theorem yields_resolveKey (hknown : ClosedUnderReading room known) (hs : scope.Traced known h)
    (type : KeyType) {given : Value} (hgiven : given.Traced known h) :
    Yields room known h (fun g r => ∀ k, r = .ok k → k.Traced known g)
      (resolveKey scope type given) := by
  have htext {s : String} (g : Heap) :
      ∀ k, (Except.ok (.text s) : Except String Key) = .ok k → k.Traced known g := by
    rintro _ ⟨⟩
    exact .text s
  cases type with
  | literal =>
    unfold resolveKey
    dsimp only
    split
    · exact .pure fun g _ => htext g
    · exact .andThen (succeeds_plain hgiven.shown) fun _ _ _ => .pure fun g _ => htext g
  | numberLiteral =>
    refine .bind (yields_toNumber? hknown hgiven) fun n? g hg hn => ?_
    cases n? with
    | some n =>
      refine .pure fun l hl k hk => ?_
      cases hk
      exact ⟨(hn n rfl).1.later hl.grows, (hn n rfl).2⟩
    | none =>
      refine .andThen (succeeds_plain (hgiven.later hg).shown) fun _ _ _ => ?_
      exact .pure fun _ _ => nofun
  | _ =>
    unfold resolveKey
    dsimp only
    split
    · exact .andThen (succeeds_plain hgiven.shown) fun _ _ _ => .pure fun _ _ => nofun
    · next name _ =>
      have hv := hs.get name .nil
      split
      · exact .pure fun g _ => htext g
      · next n hn =>
        refine .pure fun g hg k hk => ?_
        cases hk
        rw [hn] at hv
        exact ⟨hv.within.later hg.grows, (hv.shown h (.refl h)).integers⟩
      · exact .andThen (succeeds_plain hv.shown) fun _ _ _ => .pure fun g _ => htext g

theorem yields_resolveValue (hknown : ClosedUnderReading room known) (hs : scope.Traced known h)
    (kind : SourceKind) {given : Value} (hgiven : given.Traced known h) :
    Yields room known h (fun g r => ∀ v, r = .ok v → v.Within g)
      (resolveValue scope kind given) := by
  cases kind with
  | literal =>
    refine .bind (yields_literal hknown hgiven) fun w g _ hw => .pure fun k hk v hv => ?_
    cases hv
    exact hw.within.later hk.grows
  | _ =>
    unfold resolveValue
    dsimp only
    split
    · exact .andThen (succeeds_plain hgiven.shown) fun _ _ _ => .pure fun _ _ => nofun
    · next name _ =>
      refine .pure fun g hg v hv => ?_
      cases hv
      exact (hs.get name .nil).within.later hg.grows

theorem arraySlot_failsBy {k : Key} (hk : k.Traced known h) :
    FailsBy (Exceeded room known) (arraySlot k) := by
  cases k with
  | number n =>
    refine (Number.toFloat_failsBy hk.integers).bind fun x => ?_
    split <;> exact .ok _
  | _ => exact .ok _

theorem Table.get?_failsBy (t : Table) {k : Key} (hk : k.Traced known h) :
    FailsBy (Exceeded room known) (t.get? k) := by
  cases t with
  | array items =>
    refine (arraySlot_failsBy hk).bind fun slot => ?_
    split <;> exact .ok _
  | map entries => exact .ok _

theorem Table.put?_failsBy (t : Table) {k : Key} (hk : k.Traced known h) (v : Value) :
    FailsBy (Exceeded room known) (t.put? k v) := by
  cases t with
  | array items =>
    refine (arraySlot_failsBy hk).bind fun slot => ?_
    split
    · split
      · exact .ok _
      · split <;> exact .ok _
    · exact .ok _
  | map entries => exact .ok _

theorem CreateTable.acts {c : CreateTable} (hknown : ClosedUnderReading room known)
    (hc : c.initialValue.Traced known h) : Acts room known h (c.eval scope) := by
  have hempty {g : Heap} : c.tableType.empty.Within g := by
    cases c.tableType <;> exact List.forall_mem_nil _
  unfold eval
  split
  · exact acts_quiet rfl rfl
  · refine .bind (yields_literal hknown hc) fun v g hg hv => ?_
    split
    · exact acts_binding rfl rfl hv.within
    · exact .bind (ends_alloc hempty) fun w _ _ hw => acts_binding rfl rfl hw
    · exact .andThen (succeeds_display (hc.later hg).shown) fun _ _ _ => acts_quiet rfl rfl

theorem SetTableValue.acts_write {c : SetTableValue} (hknown : ClosedUnderReading room known)
    (hs : scope.Traced known h) (hkey : c.keyValue.Traced known h)
    (hvalue : c.valueSource.Traced known h) (name : String) (a : Address) :
    Acts room known h (c.write scope name a) := by
  refine .bind (yields_resolveKey hknown hs _ hkey) fun r g hg hr => ?_
  cases r with
  | error message => exact acts_quiet rfl rfl
  | ok key =>
    refine .bind (yields_resolveValue hknown (hs.later hg) _ (hvalue.later hg))
      fun v? k hk hv => ?_
    cases v? with
    | error message => exact acts_quiet rfl rfl
    | ok v =>
      have hkey := (hr key rfl).later hk
      have hv := hv v rfl
      refine .bind ends_get fun d l hl ht => ?_
      have hchanged : Yields room known l (fun m r => ∀ t, r = some t → t.Within m)
          (Eval.lift ((d.heap.get a).put? key v)) :=
        ends_lift (fun r hr m hm t hchanged =>
          ((ht a).put? (hkey.within.later hl.grows) (hv.later hl.grows) (hchanged ▸ hr)).later
            hm.grows)
          (Table.put?_failsBy _ hkey v)
      refine .bind hchanged fun changed? m hm hchanged => ?_
      cases changed? with
      | none =>
        exact .andThen (succeeds_display (hkey.later (hl.trans hm)).shown) fun _ _ _ =>
          acts_quiet rfl rfl
      | some changed => exact acts_writing rfl rfl (hchanged changed rfl)

theorem SetTableValue.acts {c : SetTableValue} (hknown : ClosedUnderReading room known)
    (hs : scope.Traced known h) (hkey : c.keyValue.Traced known h)
    (hvalue : c.valueSource.Traced known h) : Acts room known h (c.eval scope) := by
  unfold eval
  split
  · exact acts_quiet rfl rfl
  · split
    · exact acts_write hknown hs hkey hvalue _ _
    · exact acts_quiet rfl rfl

/-- What is looked up lies in the heap, and so does what stands in for it. -/
theorem GetTableValue.yields_lookUp {c : GetTableValue} (hknown : ClosedUnderReading room known)
    (hs : scope.Traced known h) (hkey : c.keyValue.Traced known h) (name : String)
    {absent : Value} (ha : absent.Within h) :
    Yields room known h (fun g found => found.value.Within g) (c.lookUp scope name absent) := by
  refine .bind (ends_table? _) fun table? g hg ht => ?_
  match table? with
  | none => exact .pure fun k hk => ha.later (hg.trans hk).grows
  | some (a, table) =>
    have htable := ht a table rfl
    refine .bind (yields_resolveKey hknown (hs.later hg) _ (hkey.later hg)) fun r k hk hr => ?_
    cases r with
    | error message => exact .pure fun l hl => ha.later ((hg.trans hk).trans hl).grows
    | ok key =>
      have hkey := hr key rfl
      have hfound : Yields room known k (fun l r => ∀ v, r = some v → v.Within l)
          (Eval.lift (table.get? key)) :=
        ends_lift (fun r hr l hl v hv =>
          ((htable.later hk.grows).get? (hv ▸ hr)).later hl.grows) (Table.get?_failsBy _ hkey)
      refine .bind hfound fun found? l hl hfound => ?_
      cases found? with
      | some v => exact .pure fun m hm => (hfound v rfl).later hm.grows
      | none =>
        refine .andThen (succeeds_plain (hkey.later hl).shown) fun _ m hm => ?_
        exact .pure fun n hn => ha.later ((((hg.trans hk).trans hl).trans hm).trans hn).grows

theorem GetTableValue.acts {c : GetTableValue} (hknown : ClosedUnderReading room known)
    (hs : scope.Traced known h) (hkey : c.keyValue.Traced known h)
    (hdefault : c.defaultValue.Traced known h) : Acts room known h (c.eval scope) := by
  unfold eval
  split
  · exact acts_quiet rfl rfl
  · exact acts_quiet rfl rfl
  · refine .bind (yields_literal hknown hdefault) fun absent g hg ha => ?_
    refine .bind (yields_lookUp hknown (hs.later hg) (hkey.later hg) _ ha.within)
      fun found _ _ hfound => ?_
    exact acts_binding rfl rfl hfound

theorem InsertIntoTable.acts {c : InsertIntoTable} (hknown : ClosedUnderReading room known)
    (hs : scope.Traced known h) (hc : c.valueSource.Traced known h) :
    Acts room known h (c.eval scope) := by
  unfold eval
  split
  · exact acts_quiet rfl rfl
  · refine .bind (ends_table? _) fun table? g hg ht => ?_
    split
    · next a items =>
      have hitems := ht a (.array items) rfl
      refine .bind (yields_resolveValue hknown (hs.later hg) _ (hc.later hg)) fun v? k hk hv => ?_
      cases v? with
      | error message => exact acts_quiet rfl rfl
      | ok v =>
        exact acts_writing rfl rfl
          (List.forall_mem_append.2 ⟨hitems.later hk.grows, List.forall_mem_singleton.2 (hv v rfl)⟩)
    · exact acts_quiet rfl rfl

theorem GetTableLength.acts (c : GetTableLength) : Acts room known h (c.eval scope) := by
  unfold eval
  split
  · exact acts_quiet rfl rfl
  · exact acts_quiet rfl rfl
  · exact .bind (ends_table? _) fun _ _ _ _ => acts_binding rfl rfl trivial

/-! ### Events -/

theorem Event.argumentsText_failsBy {args : List Value} (hargs : ∀ v ∈ args, v.Shown known h) :
    FailsBy (Exceeded room known) (argumentsText h room args) := by
  intro f hf
  refine ((Tree.list _).jsonOrDisplay_failsBy room f hf).exceeded_of_list fun t ht => ?_
  obtain ⟨v, hv, rfl⟩ := List.mem_map.1 ht
  exact hargs v hv h (.refl h)

theorem ServerEvent.acts {c : ServerEvent} (hknown : ClosedUnderReading room known)
    (hs : scope.Traced known h) (hargs : ∀ s ∈ c.arguments, s.value.Traced known h) :
    Acts room known h (c.eval scope) := by
  unfold eval
  split
  · exact acts_quiet rfl rfl
  · refine .bind (Source.yields_resolveAll hknown hs hargs) fun args g _ hargs => ?_
    refine .andThen (ends_ask fun k hk => ⟨fun _ _ => trivial, ?_⟩) fun _ _ _ => acts_quiet rfl rfl
    exact (Event.argumentsText_failsBy fun v hv => ((hargs v hv).later hk).shown).bind fun _ => .ok _

/-- A number that is sent to is the one that was given, or a double cut off. -/
theorem Number.Traced.truncate? {a : Number} (ha : a.Traced known) {n : Int}
    (hn : a.truncate? = some n) : TracedInt known n := by
  cases a with
  | int m =>
    have hm : m = n := by simpa [Number.truncate?, Number.fraction?] using hn
    exact hm ▸ ha m (List.mem_singleton_self m)
  | float x => exact .inl (Number.truncate?_float_lt hn)
  | nan mark => cases hn

theorem ClientEvent.target_shown {c : ClientEvent} (hknown : ClosedUnderReading room known)
    (hs : scope.Traced known h) (hc : c.targetPlayer.Traced known h) :
    (∀ v, c.target scope h = .ok v → v.Shown known h) ∧
      FailsBy (Exceeded room known) (c.target scope h) := by
  obtain ⟨name, arguments, given, useVariable⟩ := c
  have hall : broadcastTarget.Traced known h := .int (.inl (by decide +kernel))
  have hliteral {v : Value} (hv : v.Traced known h) :
      (∀ w, target ⟨name, arguments, v, false⟩ scope h = .ok w → w.Shown known h) ∧
        FailsBy (Exceeded room known) (target ⟨name, arguments, v, false⟩ scope h) := by
    have hok {w : Value} (hw : w.Traced known h) :
        (∀ u, (Except.ok w : Except Fault Value) = .ok u → u.Shown known h) ∧
          FailsBy (Exceeded room known) (.ok w) := by
      refine ⟨?_, .ok w⟩
      rintro _ ⟨⟩
      exact hw.shown
    simp only [target]
    split
    · exact hok hv
    · cases hn : v.toNumber? with
      | none => exact hok hall
      | some n =>
        have hn := hv.toNumber? hknown hn
        simp only [Number.isFinite]
        cases hx : n.toFloat with
        | error f =>
          refine ⟨fun v hv => ?_, fun e he => ?_⟩
          · cases hv
          · cases he
            exact Number.toFloat_failsBy hn f hx
        | ok x =>
          simp only [bind, Except.bind, pure, Except.pure]
          split
          · cases hint : n.truncate? with
            | none => exact hok .nil
            | some k => exact hok (.int (hn.truncate? hint))
          · exact hok hall
  cases useVariable with
  | false => exact hliteral hc
  | true =>
    cases given with
    | text variableName => exact hliteral (hs.get variableName hall)
    | _ => exact hliteral hc

theorem ClientEvent.acts {c : ClientEvent} (hknown : ClosedUnderReading room known)
    (hs : scope.Traced known h) (hargs : ∀ s ∈ c.arguments, s.value.Traced known h)
    (hc : c.targetPlayer.Traced known h) : Acts room known h (c.eval scope) := by
  unfold eval
  split
  · exact acts_quiet rfl rfl
  · refine .bind (Source.yields_resolveAll hknown hs hargs) fun args g hg hargs => ?_
    have htarget : Yields room known g (fun k v => v.Shown known k)
        (Eval.ask fun h _ => c.target scope h) :=
      ends_ask fun k hk => target_shown hknown (hs.later (hg.trans hk)) (hc.later (hg.trans hk))
    refine .bind htarget fun target k hk hshown => ?_
    refine .andThen (ends_ask fun l hl => ⟨fun _ _ => trivial, ?_⟩) fun _ _ _ => acts_quiet rfl rfl
    refine FailsBy.bind (fun f hf => ?_) fun _ => ?_
    · exact ((l.tree target).jsonOrDisplay_failsBy room f hf).exceeded (hshown l hl)
    · exact (Event.argumentsText_failsBy fun v hv =>
        ((hargs v hv).later (hk.trans hl)).shown).bind fun _ => .ok _

end

end NodeScript
