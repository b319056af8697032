import NodeScript.Proofs.CallStack
import NodeScript.Proofs.Limits.Instructions

/-!
Steps keep contexts closed. Leaves and headers make nothing but values of the heap, and a call brings
in what the called graph returns; so a step leads from a closed context to a closed one as long as
the answers to calls do.
-/

namespace NodeScript

variable {room : Nat} {known : Tree → Prop} {h g : Heap} {scope : Scope} {c c' : Context}
  {run : Library.Runner} {i : Instruction} {m : Machine} {s : Setup}

/-! ### Evaluation without limits -/

/-- Stands for any tree. -/
def Tree.Any (_ : Tree) : Prop := True

theorem closedUnderReading_any : ClosedUnderReading room Tree.Any :=
  ⟨fun _ _ => trivial, fun _ _ => trivial⟩

theorem Value.Within.traced {v : Value} (hv : v.Within h) : v.Traced Tree.Any h where
  within := hv
  shown g _ := ⟨.inr ⟨g.tree v, trivial, Nat.le_refl _⟩, fun _ hn => .inr ⟨g.tree v, trivial, hn⟩⟩
  text _ _ := .inr trivial

theorem Context.Closed.scope_traced_any (hc : c.Closed) : c.scope.Traced Tree.Any c.heap := by
  intro name v hv
  obtain ⟨e, he, rfl⟩ := Dict.exists_mem_of_get? hv
  exact (hc.bindings e he).traced

/-- What the handler of an instruction is configured with lies in the heap. -/
theorem Instruction.Within.values (hi : i.Within h) (hh : h.Closed) {kind : HandlerKind}
    {handler : Handler} (hd : Handler.decoder h kind i.config.get? = .valid handler) :
    ∀ v ∈ handler.values, v.Within h := by
  refine Handler.forall_values_of_decoder hh.inherits_within (fun n v hv => ?_) (fun _ => trivial) hd
  obtain ⟨e, he, rfl⟩ := Dict.exists_mem_of_get? hv
  exact hi e he

/-! ### Headers -/

theorem yields_headerOperand (hknown : ClosedUnderReading room known) (hs : scope.Traced known h)
    (kind : SourceKind) {given absent : Value} (hgiven : given.Traced known h)
    (ha : absent.Traced known h) :
    Eval.Yields room known h (fun g v => v.Traced known g)
      (headerOperand scope kind given absent) := by
  unfold headerOperand
  split
  · exact .pure fun _ hg => (hs.get _ ha).later hg
  · exact .pure fun _ hg => (hs.get _ ha).later hg
  · exact Eval.yields_literal hknown hgiven

def LoopEntry.Within (h : Heap) : LoopEntry → Prop
  | .generic loop => loop.Within h
  | .skip | .numeric _ => True

def HeaderOutcome.Within (h : Heap) : HeaderOutcome → Prop
  | .enter bindings entry => (∀ b ∈ bindings, b.2.Within h) ∧ entry.Within h
  | .skip | .refused _ => True

def Reply.Within (h : Heap) : Reply → Prop
  | .entry e => e.Within h
  | .nothing | .record _ | .truth _ => True

/-- What comes of an evaluation, whatever it fails by. -/
abbrev Eval.Keeps {α : Type} (room : Nat) (h : Heap) (Q : Heap → α → Prop) (x : Eval α) : Prop :=
  Eval.Ends (fun _ => True) room h Q x

theorem keeps_headerOperand (hs : scope.Traced Tree.Any h) (kind : SourceKind)
    {given absent : Value} (hgiven : given.Within h) (ha : absent.Within h) :
    Eval.Keeps room h (fun g v => v.Within g) (headerOperand scope kind given absent) :=
  (yields_headerOperand closedUnderReading_any hs kind hgiven.traced ha.traced).weaken
    (fun _ _ => trivial) fun _ _ _ hv => hv.within

theorem Condition.keeps_eval (cond : Condition) (hs : scope.Traced Tree.Any h)
    (hl : cond.lhs.Within h) (hr : cond.rhs.Within h) :
    Eval.Keeps room h (fun _ _ => True) (cond.eval scope) := by
  have hask {α : Type} {g : Heap} (f : Heap → Nat → Except Fault α) :
      Eval.Keeps room g (fun _ _ => True) (Eval.ask f) :=
    Eval.ends_ask fun _ _ => ⟨fun _ _ => trivial, fun _ _ => trivial⟩
  refine .bind (keeps_headerOperand hs _ hl trivial) fun lhs g hg _ => ?_
  refine .bind (keeps_headerOperand (hs.later hg) _ (hr.later hg.grows) trivial) fun rhs k _ _ => ?_
  refine .andThen (hask _) fun met _ _ => .andThen (hask _) fun _ _ _ => ?_
  exact .andThen (hask _) fun _ _ _ => .pure fun _ _ => trivial

theorem NumericFor.keeps_eval (n : NumericFor) (hs : scope.Traced Tree.Any h)
    (hstart : n.start.Within h) (hfinish : n.finish.Within h) (hstep : n.step.Within h) :
    Eval.Keeps room h (fun g o => o.Within g) (n.eval scope) := by
  refine .bind (keeps_headerOperand hs _ hstart trivial) fun start g hg hv => ?_
  refine .bind (keeps_headerOperand (hs.later hg) _ (hfinish.later hg.grows) trivial)
    fun finish k hk _ => ?_
  refine .bind (keeps_headerOperand (hs.later (hg.trans hk)) _ (hstep.later (hg.trans hk).grows)
    trivial) fun step l hl _ => ?_
  split
  · exact .pure fun _ _ => trivial
  · exact .pure fun _ _ => trivial
  · exact .pure fun _ _ => trivial
  · next current limit step hcurrent _ _ =>
    split
    · exact .pure fun _ _ => trivial
    · dsimp only
      split
      · refine .pure fun m hm => ⟨List.forall_mem_singleton.2 ?_, trivial⟩
        exact (hv.toNumber? hcurrent).later ((hk.trans hl).trans hm).grows
      · exact .pure fun _ _ => trivial

namespace GenericFor

theorem consecutive_within {d : Dict Key Value} (hd : (Table.map d).Within h) :
    ∀ v ∈ consecutive d, v.Within h := by
  unfold consecutive
  generalize d.size = count, 1 = index
  induction count generalizing index with
  | zero => exact List.forall_mem_nil _
  | succ count ih =>
    unfold consecutiveFrom
    cases hv : itemAt? d index with
    | none => exact List.forall_mem_nil _
    | some v =>
      refine List.forall_mem_cons.2 ⟨?_, ih (index + 1)⟩
      have hmem : ∃ e ∈ d.entries, e.2 = v := by
        unfold itemAt? at hv
        split at hv
        · next hget =>
          cases hv
          exact Dict.exists_mem_of_get? hget
        · exact Dict.exists_mem_of_get? hv
      obtain ⟨e, he, rfl⟩ := hmem
      exact (hd e he).2

theorem entries_within {t : Table} (ht : t.Within h) :
    ∀ e ∈ entries t, e.1.Within h ∧ e.2.Within h := by
  cases t with
  | array items =>
    refine List.forall_mem_map.2 fun e he => ⟨trivial, ?_⟩
    exact ht e.1 (List.fst_mem_of_mem_zipIdx he)
  | map d => exact List.forall_mem_map.2 ht

theorem enter_within (f : GenericFor) (a : Address) {t : Table} (ht : t.Within h) :
    (f.enter a t).Within h := by
  have hbound {k v : Value} {name name' : String} (hk : k.Within h) (hv : v.Within h) :
      ∀ b ∈ [(name, k), (name', v)], b.2.Within h :=
    List.forall_mem_cons.2 ⟨hk, List.forall_mem_singleton.2 hv⟩
  unfold enter
  dsimp only
  split
  · cases t with
    | array items =>
      dsimp only
      cases hhead : items.head? with
      | none => trivial
      | some v =>
        refine ⟨hbound trivial (ht v (List.mem_of_mem_head? hhead)), ?_, ?_⟩
        · rintro _ ⟨⟩
        · rintro _ ⟨⟩
    | map d =>
      have hitems := consecutive_within ht
      dsimp only
      cases hhead : (consecutive d).head? with
      | none => trivial
      | some v =>
        refine ⟨hbound trivial (hitems v (List.mem_of_mem_head? hhead)), ?_, ?_⟩
        · rintro _ ⟨⟩
          exact hitems
        · rintro _ ⟨⟩
  · have hentries := entries_within ht
    split
    · trivial
    · next k v rest hsplit =>
      rw [hsplit] at hentries
      obtain ⟨hfirst, hrest⟩ := List.forall_mem_cons.1 hentries
      refine ⟨hbound hfirst.1 hfirst.2, ?_, ?_⟩
      · rintro _ ⟨⟩
      · rintro _ ⟨⟩
        exact hrest

theorem keeps_eval (f : GenericFor) :
    Eval.Keeps room h (fun g o => o.Within g) (f.eval scope) := by
  unfold eval
  split
  · exact .pure fun _ _ => trivial
  · refine .bind (Eval.ends_table? _) fun table? g _ ht => ?_
    match table? with
    | none => exact .andThen (Eval.ends_kindName _) fun _ _ _ => .pure fun _ _ => trivial
    | some (a, table) =>
      exact .pure fun k hk => f.enter_within a ((ht a table rfl).later hk.grows)

end GenericFor

theorem GiveBack.keeps_value (b : GiveBack) (hs : scope.Traced Tree.Any h)
    (hv : b.returnValue.Within h) :
    Eval.Keeps room h (fun g r => r.1.Within g) (b.value scope) := by
  have hliteral : Eval.Keeps room h (fun g v => v.Within g) (Eval.literal b.returnValue) :=
    (Eval.yields_literal closedUnderReading_any hv.traced).weaken (fun _ _ => trivial)
      fun _ _ _ hw => hw.within
  unfold value
  split
  · next name _ _ =>
    have hget {g : Heap} (hg : h.Extends g) : (scope.get name).Within g :=
      (hs.get name .nil).within.later hg.grows
    dsimp only
    split
    · exact .andThen (Eval.ends_warn _) fun _ _ hg => .pure fun _ hk => hget (hg.trans hk)
    · exact .pure fun _ hg => hget hg
  · exact .bind hliteral fun w _ _ hw => .pure fun _ hk => hw.later hk.grows

namespace Context

/-- A computation that keeps the context closed, whatever comes of it. -/
abbrev GoesOn {α : Type} (c : Context) (r : EStateM.Result Fault Context α) : Prop :=
  c.LeadsTo (fun _ => True) (fun _ _ => True) r

variable (hc : c.Closed)

include hc

theorem Closed.apply {o : HeaderOutcome} (ho : o.Within c.heap) :
    c.LeadsTo (fun _ => True) (fun g e => e.Within g) (o.apply c) := by
  cases o with
  | skip => exact hc.pure trivial
  | enter bindings entry =>
    have hleads : c.Leads (c.setVariables bindings) := Closed.setVariables bindings hc ho.1
    have hentry : entry.Within (c.setVariables bindings).heap := by
      cases entry with
      | generic loop =>
        have hloop : (LoopState.generic loop).Within c.heap := ho.2
        exact hloop.later hleads.grows
      | _ => trivial
    exact ⟨hleads, hentry⟩
  | refused message => exact ⟨hc.unchanged rfl rfl rfl rfl, trivial⟩

theorem Closed.run_giveBack {b : GiveBack} (hv : b.returnValue.Within c.heap) :
    c.GoesOn (b.run c) := by
  refine .bind (hc.evaluate (b.keeps_value hc.scope_traced_any hv)) fun r c' hleads hr => ?_
  exact ⟨hleads.closed.setReturn hr, trivial⟩

end Context

/-! ### Calls -/

/-- A run that was asked for goes on from the heap of its caller and ends in a closed context. -/
def Request.Keeps (q : Request) (x : Except Fault RunResult) : Prop :=
  ∀ r, x = .ok r → q.heap.Grows r.context.heap ∧ r.context.Closed

theorem RunResult.returnValue_within {r : RunResult} (hr : r.context.Closed) :
    r.returnValue.Within r.context.heap := by
  unfold returnValue
  cases hv : r.context.returned with
  | none => trivial
  | some v => exact hr.returned v hv

namespace Context.Closed

variable (hc : c.Closed)

include hc

theorem asCaller {key : String} {args : List Value}
    (hrun : Request.Keeps ⟨c.room, key, args, c.heap, c.notices⟩
      (run c.room key args c.heap c.notices)) :
    c.LeadsTo (fun _ => True) (fun g v => v.Within g) (Library.asCaller run key args c) := by
  rw [Library.asCaller_apply]
  cases hr : run c.room key args c.heap c.notices with
  | error f => exact ⟨hc.refl, trivial⟩
  | ok r =>
    obtain ⟨hgrows, hclosed⟩ := hrun r hr
    have hheap := hc.withHeap hgrows hclosed.heap
    dsimp only
    split
    · exact ⟨hheap.trans (hheap.closed.unchanged rfl rfl rfl rfl), r.returnValue_within hclosed⟩
    · exact ⟨hheap.trans (hheap.closed.unchanged rfl rfl rfl rfl), trivial⟩

theorem invoke (name : String) {key : String} {args : List Value}
    (hrun : Request.Keeps ⟨c.room, key, args, c.heap, c.notices⟩
      (run c.room key args c.heap c.notices)) :
    c.LeadsTo (fun _ => True) (fun g r => r.1.Within g)
      (Call.invoke (Library.asCaller run) name key args c) := by
  have hcall := hc.asCaller hrun
  unfold Call.invoke
  generalize Library.asCaller run key args c = r at hcall
  cases r with
  | ok v c' => exact hcall
  | error f c' =>
    dsimp only
    split
    · exact ⟨hcall.1.trans (hcall.1.closed.unchanged rfl rfl rfl rfl), trivial⟩
    · exact hcall

theorem setResult (name : String) {v : Value} (hv : v.Within c.heap) :
    c.Leads (Call.setResult name v c) := by
  unfold Call.setResult
  split
  · exact hc.setVariable name hv
  · exact hc.unchanged rfl rfl rfl rfl

theorem send (call : Call) (hargs : ∀ s ∈ call.arguments, s.value.Within c.heap) :
    c.LeadsTo (fun _ => True) (fun g args => ∀ v ∈ args, v.Within g) (call.send c) :=
  hc.evaluate <|
    (Source.yields_resolveAll closedUnderReading_any hc.scope_traced_any fun s hs =>
      (hargs s hs).traced).weaken (fun _ _ => trivial) fun _ _ _ hvs v hv => (hvs v hv).within

theorem run_call {call : Call} {start : String}
    (hargs : ∀ s ∈ call.arguments, s.value.Within c.heap)
    (hanswer : ∀ q, call.request? start c = some q → q.Keeps (q.answer run)) :
    c.GoesOn (call.run start (Library.asCaller run) c) := by
  cases hname : givenName? call.functionName with
  | none =>
    rw [Call.run_nameless hname]
    have hset := hc.setVariable call.result (v := .nil) trivial
    exact ⟨hset.trans (hset.closed.unchanged rfl rfl rfl rfl), trivial⟩
  | some name =>
    rw [Call.run_named hname]
    have hsend := hc.send call hargs
    cases hr : call.send c with
    | error f c' =>
      rw [hr] at hsend
      exact ⟨hsend.1, trivial⟩
    | ok args c' =>
      rw [hr] at hsend
      have hrequest : call.request? start c =
          some ⟨c'.room, functionKey start name, args, c'.heap, c'.notices⟩ := by
        simp [Call.request?, hname, hr]
      have hinvoke := hsend.1.closed.invoke name (hanswer _ hrequest)
      dsimp only
      generalize Call.invoke (Library.asCaller run) name _ args c' = r at hinvoke
      cases r with
      | error f c'' => exact ⟨hsend.1.trans hinvoke.1, trivial⟩
      | ok answer c'' =>
        have hresult := hinvoke.1.closed.setResult call.result hinvoke.2
        exact ⟨(hsend.1.trans hinvoke.1).trans hresult, trivial⟩

/-! ### Instructions -/

theorem run_handler {handler : Handler} {start : String}
    (hv : ∀ v ∈ handler.values, v.Within c.heap)
    (hanswer : ∀ call q, handler = .call call → call.request? start c = some q →
      q.Keeps (q.answer run)) :
    c.LeadsTo (fun _ => True) (fun g reply => reply.Within g)
      (handler.run start (Library.asCaller run) c) := by
  have hs := hc.scope_traced_any
  cases handler with
  | condition cond =>
    refine .bind (hc.evaluate (cond.keeps_eval hs (hv _ ?_) (hv _ ?_)))
      fun met c' hleads _ => hleads.closed.pure trivial
    · simp [Handler.values]
    · simp [Handler.values]
  | numericFor n =>
    refine .bind (hc.evaluate (n.keeps_eval hs (hv _ ?_) (hv _ ?_) (hv _ ?_)))
      fun o c' hleads ho => .bind (hleads.closed.apply ho) fun e c'' hleads' he =>
        hleads'.closed.pure he
    · simp [Handler.values]
    · simp [Handler.values]
    · simp [Handler.values]
  | genericFor f =>
    exact .bind (hc.evaluate f.keeps_eval) fun o c' hleads ho =>
      .bind (hleads.closed.apply ho) fun e c'' hleads' he => hleads'.closed.pure he
  | breakLoop => exact ⟨hc.unchanged rfl rfl rfl rfl, trivial⟩
  | giveBack b =>
    exact .bind (hc.run_giveBack (hv _ List.mem_cons_self)) fun _ c' hleads _ =>
      hleads.closed.pure trivial
  | call call =>
    exact .bind (hc.run_call (List.forall_mem_map.1 hv) fun q hq => hanswer call q rfl hq)
      fun _ c' hleads _ => hleads.closed.pure trivial
  | leaf l =>
    refine (hc.run_leaf (Leaf.acts closedUnderReading_any hs fun v hmem => (hv v hmem).traced)
      start _).weaken (fun _ _ => trivial) ?_
    rintro g reply (rfl | ⟨r, rfl⟩) <;> trivial

/-- An evaluation leads from a closed context to a closed one if the answer to its call does. -/
theorem evaluate_instruction {start : String} (hi : i.Within c.heap)
    (hanswer : ∀ call q, i.control = some .call → Call.decoder c.heap i.config.get? = .valid call →
      call.request? start c = some q → q.Keeps (q.answer run)) :
    c.LeadsTo (fun _ => True) (fun g reply => reply.Within g)
      (i.evaluate start (Library.asCaller run) c) := by
  cases hkind : HandlerKind.ofTag? i.tag with
  | none =>
    simp only [Instruction.evaluate, hkind]
    exact hc.pure trivial
  | some kind =>
    rw [Instruction.evaluate_of_kind hkind]
    cases hd : Handler.decoder c.heap kind i.config.get? with
    | invalid problems => exact ⟨hc.unchanged rfl rfl rfl rfl, trivial⟩
    | valid handler =>
      refine hc.run_handler (hi.values hc.heap hd) ?_
      rintro call q rfl hq
      obtain rfl := Handler.kind_eq_call hd
      obtain ⟨call', hcall, ⟨⟩⟩ := Checked.exists_of_map hd
      exact hanswer call q (Instruction.control_eq hkind rfl (by simp)) hcall hq

end Context.Closed

/-! ### Control -/

theorem LoopStack.forall_pushIfNew {P : LoopFrame → Prop} {loops : LoopStack} {frame : LoopFrame}
    (hl : ∀ f ∈ loops, P f) (hf : P frame) : ∀ f ∈ (loops.pushIfNew frame).2, P f := by
  unfold pushIfNew
  split
  · split
    · exact hl
    · exact List.forall_mem_cons.2 ⟨hf, hl⟩
  · exact List.forall_mem_singleton.2 hf

theorem LoopStack.forall_popIfStart {P : LoopFrame → Prop} {loops : LoopStack} (start : Int)
    (hl : ∀ f ∈ loops, P f) : ∀ f ∈ (loops.popIfStart start).2, P f := by
  unfold popIfStart
  split
  · split
    · exact (List.forall_mem_cons.1 hl).2
    · exact hl
  · exact List.forall_mem_nil _

namespace Program

variable {p : Program} {pc : Nat} (hc : c.Closed)

include hc

theorem goesOn_enterLoop (kind : BlockKind) {state? : Option LoopState}
    (hs : ∀ state, state? = some state → state.Within c.heap) :
    c.GoesOn (p.enterLoop kind state? pc c) := by
  rw [enterLoop_apply]
  cases Block.endAfter? p.marks kind pc with
  | none => exact ⟨hc.refl, trivial⟩
  | some finish =>
    cases state? with
    | none => exact ⟨hc.withLoops _ (LoopStack.forall_popIfStart pc hc.loops), trivial⟩
    | some state =>
      exact ⟨hc.withLoops _ (LoopStack.forall_pushIfNew hc.loops (hs state rfl)), trivial⟩

theorem goesOn_endNumericFor : c.GoesOn (endNumericFor pc c) := by
  obtain ⟨⟨start, finish, state⟩, rest, hl, hk, -⟩ | ⟨-, e, he⟩ :=
    expect_cases c.loops .numeric pc Control.endNumericFor.tag
  · obtain ⟨loop, rfl⟩ : ∃ loop, state = .numeric loop := by
      cases state <;> simp_all [LoopState.kind]
    obtain ⟨-, hrest⟩ := List.forall_mem_cons.1 (hl ▸ hc.loops)
    have happly := @endNumericFor_apply pc c loop start finish rest
    rw [← hl, show c.withLoops c.loops = c from rfl] at happly
    rw [happly]
    cases ha : loop.advance with
    | error f => exact ⟨hc.refl, trivial⟩
    | ok next =>
      dsimp only
      split
      · have hloops := hc.withLoops (⟨start, finish, .numeric next⟩ :: rest)
          (List.forall_mem_cons.2 ⟨trivial, hrest⟩)
        obtain ⟨n, hn, ⟨⟩⟩ := Serial.exists_of_bind ha
        exact ⟨hloops.trans (Context.Closed.setVariables _ hloops.closed
          (List.forall_mem_singleton.2 (Number.within_lift hn))), trivial⟩
      · exact ⟨hc.withLoops rest hrest, trivial⟩
  · simp only [endNumericFor, bind, EStateM.bind, expectLoop_apply, he]
    exact ⟨hc.refl, trivial⟩

theorem goesOn_endGenericFor : c.GoesOn (endGenericFor pc c) := by
  obtain ⟨⟨start, finish, state⟩, rest, hl, hk, -⟩ | ⟨-, e, he⟩ :=
    expect_cases c.loops .generic pc Control.endGenericFor.tag
  · obtain ⟨loop, rfl⟩ : ∃ loop, state = .generic loop := by
      cases state <;> simp_all [LoopState.kind]
    obtain ⟨hloop, hrest⟩ := List.forall_mem_cons.1 (hl ▸ hc.loops)
    obtain ⟨hnext, hentry⟩ := GenericLoop.Within.advance hloop hc.heap
    have happly := @endGenericFor_apply pc c loop start finish rest
    rw [← hl, show c.withLoops c.loops = c from rfl] at happly
    rw [happly]
    cases ha : (loop.advance c.heap).1 with
    | error f => exact ⟨hc.refl, trivial⟩
    | ok found =>
      cases found with
      | none => exact ⟨hc.withLoops rest hrest, trivial⟩
      | some entry =>
        obtain ⟨hk, hv⟩ := hentry entry.1 entry.2 ha
        have hloops := hc.withLoops (⟨start, finish, .generic (loop.advance c.heap).2⟩ :: rest)
          (List.forall_mem_cons.2 ⟨hnext, hrest⟩)
        exact ⟨hloops.trans (Context.Closed.setVariables _ hloops.closed
          (List.forall_mem_cons.2 ⟨hk, List.forall_mem_singleton.2 hv⟩)), trivial⟩
  · simp only [endGenericFor, bind, EStateM.bind, expectLoop_apply, he]
    exact ⟨hc.refl, trivial⟩

theorem goesOn_branch :
    c.GoesOn
      ((match Block.elseOrEndAfter? p.marks pc with
        | some index => return index + 1
        | none => throw (.structural (.missingElseOrEnd pc)) : Exec Nat) c) := by
  cases Block.elseOrEndAfter? p.marks pc <;> exact ⟨hc.refl, trivial⟩

theorem goesOn_next (control : Control) {reply : Reply} (hr : reply.Within c.heap) :
    c.GoesOn (p.next pc control reply c) := by
  have hskip (kind : BlockKind) : c.GoesOn (p.enterLoop kind none pc c) :=
    goesOn_enterLoop hc kind nofun
  have henter (kind : BlockKind) (state : LoopState) (hs : state.Within c.heap) :
      c.GoesOn (p.enterLoop kind (some state) pc c) :=
    goesOn_enterLoop hc kind fun _ he => Option.some.inj he ▸ hs
  have honward (n : Nat) : c.GoesOn ((return n : Exec Nat) c) := hc.pure trivial
  cases control with
  | branch =>
    rcases reply with _ | _ | (_ | _) | _
    case truth.true => exact honward _
    all_goals exact goesOn_branch hc
  | otherwise =>
    have hend : c.GoesOn (p.blockEnd .branch .otherwise pc c) := by
      rw [blockEnd_apply]
      cases Block.endAfter? p.marks .branch pc <;> exact ⟨hc.refl, trivial⟩
    exact .bind hend fun _ c' hleads _ => hleads.closed.pure trivial
  | whileLoop =>
    rcases reply with _ | _ | (_ | _) | _
    case truth.true => exact henter .whileLoop .whileLoop trivial
    all_goals exact hskip .whileLoop
  | endWhile =>
    have hexpect : c.GoesOn (Exec.expectLoop .whileLoop pc .endWhile c) := by
      rw [expectLoop_apply]
      cases c.loops.expect .whileLoop pc Control.endWhile.tag <;> exact ⟨hc.refl, trivial⟩
    exact .bind hexpect fun _ c' hleads _ => hleads.closed.pure trivial
  | numericFor =>
    rcases reply with _ | _ | _ | (_ | loop | _)
    case entry.numeric => exact henter .numericFor (.numeric loop) trivial
    all_goals exact hskip .numericFor
  | endNumericFor => exact goesOn_endNumericFor hc
  | genericFor =>
    rcases reply with _ | _ | _ | (_ | _ | loop)
    case entry.generic => exact henter .genericFor (.generic loop) hr
    all_goals exact hskip .genericFor
  | endGenericFor => exact goesOn_endGenericFor hc
  | endBranch | breakLoop | giveBack | call => exact honward _

end Program

/-! ### Steps -/

namespace Setup

theorem leads_logged (hc : c.Closed) (reply : Reply) :
    c.Leads (logged i reply c) ∧ (logged i reply c).heap = c.heap := by
  cases reply with
  | record output => exact ⟨hc.unchanged rfl rfl rfl rfl, rfl⟩
  | _ => exact ⟨hc.refl, rfl⟩

theorem goesOn_perform (hs : s.caller = Library.asCaller run) (hc : c.Closed) (hi : i.Within c.heap)
    (hanswer : ∀ call q, i.control = some .call → Call.decoder c.heap i.config.get? = .valid call →
      call.request? s.settings.functionPrefix c = some q → q.Keeps (q.answer run)) (pc : Nat) :
    c.GoesOn (s.perform pc i c) := by
  have hevaluate := hc.evaluate_instruction hi hanswer
  rw [perform_apply, hs]
  generalize i.evaluate s.settings.functionPrefix (Library.asCaller run) c = r at hevaluate
  cases r with
  | error f c' => exact hevaluate
  | ok reply c' =>
    obtain ⟨hlogged, hheap⟩ := leads_logged (i := i) hevaluate.1.closed reply
    have hleads := hevaluate.1.trans hlogged
    dsimp only
    cases i.control with
    | none => exact ⟨hleads, trivial⟩
    | some control =>
      exact (Program.goesOn_next hlogged.closed control (hheap.symm ▸ hevaluate.2)).trans hleads

theorem leads_leaveLoop (hm : m.context.Closed) : m.context.Leads (s.leaveLoop m).1.context := by
  unfold leaveLoop
  split
  · next frame rest hloops =>
    have hrest := (List.forall_mem_cons.1 (hloops ▸ hm.loops)).2
    exact ⟨.refl _, hm.heap, hm.bindings, hm.returned, hrest⟩
  · exact hm.unchanged rfl rfl rfl rfl

theorem leads_passUnknown (hm : m.context.Closed) :
    m.context.Leads (s.passUnknown i m).context := by
  unfold passUnknown
  split
  · exact hm.unchanged rfl rfl rfl rfl
  · exact hm.refl

theorem leads_dispatch (hs : s.caller = Library.asCaller run) (hm : m.context.Closed)
    (hi : i.Within m.context.heap)
    (hanswer : ∀ call q, i.control = some .call →
      Call.decoder m.context.heap i.config.get? = .valid call →
      call.request? s.settings.functionPrefix m.context = some q → q.Keeps (q.answer run)) :
    m.context.Leads (s.dispatch i m).1.context := by
  have hperform := goesOn_perform hs hm hi hanswer m.pc
  unfold dispatch
  split
  · exact leads_passUnknown hm
  · dsimp only
    split
    · next hr =>
      rw [hr] at hperform
      exact hperform.1
    · next hr =>
      rw [hr] at hperform
      exact hperform.1.trans (hperform.1.closed.unchanged rfl rfl rfl rfl)

/-- A step leads from a closed context to a closed one if the answer to its call does. -/
theorem leads_step (hs : s.caller = Library.asCaller run) (hm : m.context.Closed)
    (hi : i.Within m.context.heap)
    (hanswer : ∀ q, s.request? i m = some q → q.Keeps (q.answer run)) :
    m.context.Leads (s.step i m).1.context := by
  have hvisit : m.context.Leads (visit i m).context := hm.unchanged rfl rfl rfl rfl
  by_cases hready : s.Ready m
  · rw [step_ready hready]
    refine hvisit.trans (leads_dispatch hs hvisit.closed hi fun call q hcontrol hcall hq => ?_)
    have hcall' : Call.decoder m.context.heap i.config.get? = .valid call := hcall
    refine hanswer q ?_
    simpa [request?, isReady_iff.2 hready, hcontrol, hcall'] using hq
  · rw [step_apply]
    split
    · exact hm.unchanged rfl rfl rfl rfl
    · split
      · exact hvisit
      · split
        · exact hvisit.trans (leads_leaveLoop hvisit.closed)
        · next h₁ h₂ h₃ =>
          exact absurd ⟨Bool.eq_false_of_not_eq_true h₁, Bool.eq_false_of_not_eq_true h₂,
            Bool.eq_false_of_not_eq_true h₃⟩ hready

theorem leads_result (hm : m.context.Closed) (ending : Ending) :
    m.context.Leads (s.result m ending).context := by
  have hconclude : m.context.Leads (s.conclude m ending).2 := by
    unfold conclude
    split
    · exact hm.refl
    · exact hm.unchanged rfl rfl rfl rfl
    all_goals
      split
      · split
        · exact hm.unchanged rfl rfl rfl rfl
        · exact hm.refl
      · exact hm.unchanged rfl rfl rfl rfl
  exact hconclude

end Setup

end NodeScript
