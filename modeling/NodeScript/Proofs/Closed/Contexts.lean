import NodeScript.Proofs.Configurations
import NodeScript.Proofs.Limits.Leaves
import NodeScript.Proofs.Steps

/-!
Contexts stay closed. What a run holds, its variables, its return value and what its loops still have
to visit, mentions only what the heap holds. Whatever is done to a context keeps it so.
-/

namespace NodeScript

variable {h g : Heap} {c c' c'' : Context} {α β : Type}

/-- Tables of a closed heap contain only what the heap holds. -/
theorem Heap.Closed.inherits_within (hh : h.Closed) : h.Inherits (Value.Within h) where
  nil := trivial
  emptyText := trivial
  word _ _ := trivial
  inside a v _ hv := by
    have ht := hh.get_within a
    cases htable : h.get a with
    | array items =>
      rw [htable] at ht hv
      exact ht v hv
    | map d =>
      rw [htable] at ht hv
      obtain ⟨e, he, rfl⟩ := List.mem_map.1 hv
      exact (ht e he).2

/-! ### Loops in progress -/

/-- What the loop still has to visit lies in the heap. A loop over an array looks it up each time. -/
structure GenericLoop.Within (h : Heap) (l : GenericLoop) : Prop where
  fixed : ∀ items, l.source = some (.fixed items) → ∀ v ∈ items, v.Within h
  pending : ∀ entries, l.pending = some entries → ∀ e ∈ entries, e.1.Within h ∧ e.2.Within h

def LoopState.Within (h : Heap) : LoopState → Prop
  | .generic loop => loop.Within h
  | .whileLoop | .numeric _ => True

theorem LoopState.Within.later {state : LoopState} (hs : state.Within h) (hg : h.Grows g) :
    state.Within g := by
  cases state with
  | generic loop =>
    exact ⟨fun items hi v hv => (hs.fixed items hi v hv).later hg,
      fun entries hp e he => (hs.pending entries hp e he).imp (·.later hg) (·.later hg)⟩
  | _ => trivial

theorem GenericLoop.mem_of_itemAt {items : List Value} {index : Int} {v : Value}
    (hv : itemAt items index = .ok v) : v ∈ items := by
  simp only [itemAt] at hv
  generalize (if index < 0 then _ else _) = place at hv
  split at hv
  · cases hv
  · split at hv
    · next hget =>
      cases hv
      exact List.mem_of_getElem? hget
    · cases hv

theorem GenericLoop.Within.items {l : GenericLoop} (hl : l.Within h) (hh : h.Closed)
    {source : ItemSource} (hs : l.source = some source) : ∀ v ∈ source.items h, v.Within h := by
  cases source with
  | fixed items => exact hl.fixed items hs
  | table a =>
    have ht := hh.get_within a
    simp only [ItemSource.items, Heap.array?]
    cases hget : h.get a with
    | array items => exact (hget ▸ ht : (Table.array items).Within h)
    | map d => exact List.forall_mem_nil _

/-- The next entry lies in the heap, and so does what is left after it. -/
theorem GenericLoop.Within.advance {l : GenericLoop} (hl : l.Within h) (hh : h.Closed) :
    (l.advance h).2.Within h ∧
      ∀ k v, (l.advance h).1 = .ok (some (k, v)) → k.Within h ∧ v.Within h := by
  have hnone {l' : GenericLoop} (hl' : l'.Within h) :
      l'.Within h ∧ ∀ k v, (Except.ok none : Except Fault (Option (Value × Value))) =
        .ok (some (k, v)) → k.Within h ∧ v.Within h :=
    ⟨hl', fun _ _ hr => nomatch hr⟩
  unfold GenericLoop.advance
  split
  · exact hnone hl
  · split
    · next source _ hsource =>
      dsimp only
      split
      · refine ⟨⟨hl.fixed, hl.pending⟩, fun k v hr => ?_⟩
        cases hitem : itemAt (source.items h) (l.index + 1) with
        | error f =>
          rw [hitem] at hr
          cases hr
        | ok item =>
          rw [hitem] at hr
          cases hr
          exact ⟨trivial, hl.items hh hsource _ (mem_of_itemAt hitem)⟩
      · exact hnone ⟨hl.fixed, hl.pending⟩
    · split
      · next entry rest hpending =>
        obtain ⟨hentry, hrest⟩ := List.forall_mem_cons.1 (hl.pending _ hpending)
        refine ⟨⟨hl.fixed, fun entries hr => ?_⟩, fun k v hr => ?_⟩
        · cases hr
          exact hrest
        · cases hr
          exact hentry
      · exact hnone ⟨hl.fixed, hl.pending⟩

/-! ### Contexts -/

namespace Context

/-- The context mentions only what its heap holds. -/
structure Closed (c : Context) : Prop where
  heap : c.heap.Closed
  bindings : ∀ e ∈ c.bindings.entries, e.2.Within c.heap
  returned : ∀ v, c.returned = some v → v.Within c.heap
  loops : ∀ frame ∈ c.loops, frame.state.Within c.heap

/-- A closed context whose heap has all that the heap of another one has. -/
structure Leads (c c' : Context) : Prop where
  grows : c.heap.Grows c'.heap
  closed : c'.Closed

theorem Leads.trans (h : c.Leads c') (h' : c'.Leads c'') : c.Leads c'' :=
  ⟨h.grows.trans h'.grows, h'.closed⟩

namespace Closed

variable (hc : c.Closed)

include hc

/-- What does not touch the heap, the variables, the return value or the loops does no harm. -/
theorem unchanged (hheap : c'.heap = c.heap) (hbindings : c'.bindings = c.bindings)
    (hreturned : c'.returned = c.returned) (hloops : c'.loops = c.loops) : c.Leads c' := by
  refine ⟨hheap ▸ .refl _, ?_, ?_, ?_, ?_⟩
  · rw [hheap]
    exact hc.heap
  · rw [hheap, hbindings]
    exact hc.bindings
  · rw [hheap, hreturned]
    exact hc.returned
  · rw [hheap, hloops]
    exact hc.loops

theorem refl : c.Leads c := hc.unchanged rfl rfl rfl rfl

theorem bind (name : String) {v : Value} (hv : v.Within c.heap) : c.Leads (c.bind name v) := by
  have hput := Dict.forall_put (P := fun _ : String => True)
    (Q := fun v : Value => v.Within c.heap) (k := name) trivial hv
    (fun e he => ⟨trivial, hc.bindings e he⟩)
  exact ⟨.refl _, hc.heap, fun e he => (hput e he).2, hc.returned, hc.loops⟩

theorem setVariable (name : String) {v : Value} (hv : v.Within c.heap) :
    c.Leads (c.setVariable name v) := by
  unfold Context.setVariable
  split
  · exact hc.unchanged rfl rfl rfl rfl
  · exact hc.bind name hv

omit hc in
theorem setVariables (bindings : List (String × Value)) (hc : c.Closed)
    (hb : ∀ b ∈ bindings, b.2.Within c.heap) : c.Leads (c.setVariables bindings) := by
  induction bindings generalizing c with
  | nil => exact hc.refl
  | cons b bs ih =>
    obtain ⟨hhead, htail⟩ := List.forall_mem_cons.1 hb
    have hfirst := hc.setVariable b.1 hhead
    exact hfirst.trans (ih hfirst.closed fun b hb => (htail b hb).later hfirst.grows)

theorem setReturn {v : Value} (hv : v.Within c.heap) : c.Leads (c.setReturn v).2 := by
  unfold Context.setReturn
  split
  · exact hc.unchanged rfl rfl rfl rfl
  · refine ⟨.refl _, hc.heap, hc.bindings, fun w hw => ?_, hc.loops⟩
    cases hw
    exact hv

theorem withLoops (loops : LoopStack) (hl : ∀ frame ∈ loops, frame.state.Within c.heap) :
    c.Leads (c.withLoops loops) :=
  ⟨.refl _, hc.heap, hc.bindings, hc.returned, hl⟩

theorem withHeap (hg : c.heap.Grows g) (hclosed : g.Closed) : c.Leads { c with heap := g } :=
  ⟨hg, hclosed, fun e he => (hc.bindings e he).later hg, fun v hv => (hc.returned v hv).later hg,
    fun frame hf => (hc.loops frame hf).later hg⟩

/-- What an evaluation leaves behind is taken over. -/
theorem adopt {d : Draft} (hd : d.Follows c.room c.heap) :
    c.Leads (Context.adopt { c with heap := {} } d) ∧
      (Context.adopt { c with heap := {} } d).heap = d.heap := by
  have hheap : c.Leads { c with heap := d.heap } := hc.withHeap hd.later.grows hd.closed
  have hwarnings (ws : List String) : ∀ c' : Context, c.Leads c' →
      c.Leads (ws.foldl (fun c w => c.warn w) c') ∧
        (ws.foldl (fun c w => c.warn w) c').heap = c'.heap := by
    induction ws with
    | nil => exact fun c' hc' => ⟨hc', rfl⟩
    | cons w ws ih => exact fun c' hc' => ih _ (hc'.trans (hc'.closed.unchanged rfl rfl rfl rfl))
  rw [Context.adopt, ← Array.foldl_toList]
  exact hwarnings _ _ hheap

theorem commit {e : Effect} (he : e.Within c.heap) : c.Leads (c.commit e) := by
  obtain ⟨binding, write, entry, output⟩ := e
  -- The parts of an effect are carried out one after the other.
  have hbinding : c.Leads (c.commit ⟨binding, none, none, output⟩) := by
    cases binding with
    | none => exact hc.refl
    | some b => exact hc.bind b.1 (he.binding b.1 b.2 rfl)
  have hwrite : c.Leads (c.commit ⟨binding, write, none, output⟩) := by
    cases write with
    | none => exact hbinding
    | some w =>
      have ht : w.2.Within _ := (he.write w.1 w.2 rfl).later hbinding.grows
      exact hbinding.trans
        (hbinding.closed.withHeap (Heap.grows_set _ w.1 w.2) (hbinding.closed.heap.set w.1 ht))
  cases entry with
  | none => exact hwrite
  | some r => exact hwrite.trans (hwrite.closed.unchanged rfl rfl rfl rfl)

omit hc in
theorem bindParameters (parameters : List String) (args : List Value) (hc : c.Closed)
    (hargs : ∀ v ∈ args, v.Within c.heap) : c.Leads (c.bindParameters parameters args) := by
  induction parameters generalizing c args with
  | nil => exact hc.refl
  | cons name names ih =>
    have hhead : (args.head?.getD .nil).Within c.heap := by
      cases args with
      | nil => trivial
      | cons v vs => exact hargs v List.mem_cons_self
    have hfirst := hc.setVariable name hhead
    exact hfirst.trans (ih args.tail hfirst.closed fun v hv =>
      (hargs v (List.mem_of_mem_tail hv)).later hfirst.grows)

end Closed

/-! ### Computations -/

variable {E : Fault → Prop} {Q : Heap → α → Prop} {R : Heap → β → Prop}

/-- The computation goes on from the context to a closed one, with a result that has some property
in its heap or with a fault of some sort. -/
def LeadsTo (c : Context) (E : Fault → Prop) (Q : Heap → α → Prop) :
    EStateM.Result Fault Context α → Prop
  | .ok a c' => c.Leads c' ∧ Q c'.heap a
  | .error f c' => c.Leads c' ∧ E f

theorem LeadsTo.trans {r : EStateM.Result Fault Context α} (hc : c.Leads c')
    (hr : c'.LeadsTo E Q r) : c.LeadsTo E Q r := by
  cases r with
  | ok a c'' => exact ⟨hc.trans hr.1, hr.2⟩
  | error f c'' => exact ⟨hc.trans hr.1, hr.2⟩

theorem LeadsTo.weaken {E' : Fault → Prop} {Q' : Heap → α → Prop}
    {r : EStateM.Result Fault Context α} (hr : c.LeadsTo E Q r) (hE : ∀ f, E f → E' f)
    (hQ : ∀ g a, Q g a → Q' g a) : c.LeadsTo E' Q' r := by
  cases r with
  | ok a c' => exact ⟨hr.1, hQ _ a hr.2⟩
  | error f c' => exact ⟨hr.1, hE f hr.2⟩

theorem LeadsTo.bind {x : Exec α} {f : α → Exec β} (hx : c.LeadsTo E Q (x c))
    (hf : ∀ a c', c.Leads c' → Q c'.heap a → c'.LeadsTo E R (f a c')) :
    c.LeadsTo E R ((x >>= f) c) := by
  simp only [Bind.bind, EStateM.bind]
  generalize x c = r at hx
  cases r with
  | ok a c' => exact (hf a c' hx.1 hx.2).trans hx.1
  | error e c' => exact hx

theorem Closed.pure (hc : c.Closed) {a : α} (ha : Q c.heap a) :
    c.LeadsTo E Q ((Pure.pure a : Exec α) c) :=
  ⟨hc.refl, ha⟩

/-- The heap is handed over to the evaluation and taken back after. -/
theorem evaluate_apply (f : Scope → Eval α) (c : Context) :
    Exec.evaluate f c =
      match f c.scope { heap := c.heap, room := c.room } with
      | .ok a d => .ok a (Context.adopt { c with heap := {} } d)
      | .error e d => .error e (Context.adopt { c with heap := {} } d) :=
  rfl

theorem Closed.evaluate (hc : c.Closed) {f : Scope → Eval α}
    (hf : Eval.Ends E c.room c.heap Q (f c.scope)) : c.LeadsTo E Q (Exec.evaluate f c) := by
  have hr := hf { heap := c.heap, room := c.room } ⟨.refl _, hc.heap, rfl⟩
  rw [evaluate_apply]
  generalize f c.scope { heap := c.heap, room := c.room } = r at hr
  cases r with
  | ok a d =>
    obtain ⟨hleads, hheap⟩ := hc.adopt hr.1
    exact ⟨hleads, hheap.symm ▸ hr.2⟩
  | error e d => exact ⟨(hc.adopt hr.1).1, hr.2⟩

end Context

end NodeScript
