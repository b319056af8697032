import NodeScript.Evaluate
import NodeScript.Proofs.Relocation.Trees

/-!
Evaluation under a relocation. A leaf or a header that is evaluated in a relocated heap, with its
configuration and the variables relocated too, gives the relocated effect or the same fault.
-/

namespace NodeScript

variable {ρ : Relocation} {σ α β γ δ : Type} {S : σ → σ → Prop}

/-! ### Computations side by side -/

/-- The second result is the image of the first, or the same fault, in related states. -/
inductive Image (S : σ → σ → Prop) (g : α → β) :
    EStateM.Result Fault σ α → EStateM.Result Fault σ β → Prop
  | ok (a : α) {s s' : σ} (h : S s s') : Image S g (.ok a s) (.ok (g a) s')
  | error (f : Fault) {s s' : σ} (h : S s s') : Image S g (.error f s) (.error f s')

/-- From related states, the second computation gives the image of what the first one gives. -/
def Mimics (S : σ → σ → Prop) (g : α → β) (x : EStateM Fault σ α) (y : EStateM Fault σ β) : Prop :=
  ∀ s s', S s s' → Image S g (x s) (y s')

namespace Mimics

theorem pure {g : α → β} {a : α} {b : β} (hb : b = g a) :
    Mimics S g (Pure.pure a : EStateM Fault σ α) (Pure.pure b) := by
  intro s s' h
  rw [hb]
  exact .ok a h

theorem bind {g : α → β} {k : γ → δ} {x : EStateM Fault σ α} {y : EStateM Fault σ β}
    {f : α → EStateM Fault σ γ} {f' : β → EStateM Fault σ δ} (hx : Mimics S g x y)
    (hf : ∀ a, Mimics S k (f a) (f' (g a))) : Mimics S k (x >>= f) (y >>= f') := by
  intro s s' h
  have hr := hx s s' h
  simp only [Bind.bind, EStateM.bind]
  generalize x s = r, y s' = r' at hr
  cases hr with
  | ok a h => exact hf a _ _ h
  | error f h => exact .error f h

/-- A first part that gives the same on both sides. -/
theorem bindSame {k : γ → δ} {x y : EStateM Fault σ α} {f : α → EStateM Fault σ γ}
    {f' : α → EStateM Fault σ δ} (hx : Mimics S id x y) (hf : ∀ a, Mimics S k (f a) (f' a)) :
    Mimics S k (x >>= f) (y >>= f') :=
  bind hx hf

theorem get {g : α → β} {f : σ → EStateM Fault σ α} {f' : σ → EStateM Fault σ β}
    (hf : ∀ s s', S s s' → Mimics S g (f s) (f' s')) :
    Mimics S g (MonadState.get >>= f) (MonadState.get >>= f') :=
  fun s s' h => hf s s' h s s' h

theorem modify {f f' : σ → σ} (hf : ∀ s s', S s s' → S (f s) (f' s')) :
    Mimics S id (modifyGet fun s => ((), f s) : EStateM Fault σ Unit)
      (modifyGet fun s => ((), f' s)) :=
  fun s s' h => .ok () (hf s s' h)

theorem throw {g : α → β} (f : Fault) :
    Mimics S g (MonadExcept.throw f : EStateM Fault σ α) (MonadExcept.throw f) :=
  fun _ _ h => .error f h

end Mimics

/-! ### Drafts -/

structure Draft.Moved (ρ : Relocation) (d d' : Draft) : Prop where
  heap : d.heap.Moved ρ d'.heap
  room : d'.room = d.room
  warnings : d'.warnings = d.warnings

/-- The evaluation of something moved mimics the evaluation of it. -/
abbrev Eval.Mimics (ρ : Relocation) (g : α → β) (x : Eval α) (y : Eval β) : Prop :=
  NodeScript.Mimics (Draft.Moved ρ) g x y

namespace Eval

theorem mimics_lift {g : α → β} {e : Except Fault α} {e' : Except Fault β}
    (he : e' = e.map g) : Mimics ρ g (lift e) (lift e') := by
  intro d d' hd
  rw [he]
  cases e with
  | ok a => exact .ok a hd
  | error f => exact .error f hd

theorem mimics_warn (message : String) : Mimics ρ id (warn message) (warn message) :=
  fun _ _ hd => .ok () ⟨hd.heap, hd.room, by simp [hd.warnings]⟩

theorem mimics_ask {g : α → β} {f : Heap → Nat → Except Fault α} {f' : Heap → Nat → Except Fault β}
    (hf : ∀ {h h' : Heap} (room : Nat), h.Moved ρ h' → f' h' room = (f h room).map g) :
    Mimics ρ g (ask f) (ask f') := by
  intro d d' hd
  have hlift : Mimics ρ g (lift (f d.heap d.room)) (lift (f' d'.heap d'.room)) :=
    mimics_lift (hd.room ▸ hf _ hd.heap)
  exact hlift d d' hd

/-- What is found out without seeing where tables lie is the same. -/
theorem mimics_askSame {f f' : Heap → Nat → Except Fault α}
    (hf : ∀ {h h' : Heap} (room : Nat), h.Moved ρ h' → f' h' room = f h room) :
    Mimics ρ id (ask f) (ask f') := by
  refine mimics_ask fun room hm => ?_
  rw [hf room hm]
  exact (congrFun Except.map_id _).symm

theorem mimics_display (v : Value) : Mimics ρ id (display v) (display (v.move ρ)) :=
  mimics_askSame fun room hm => hm.display room v

theorem mimics_plain (v : Value) : Mimics ρ id (plain v) (plain (v.move ρ)) :=
  mimics_askSame fun room hm => hm.plain room v

theorem mimics_scriptText (v : Value) : Mimics ρ id (scriptText v) (scriptText (v.move ρ)) :=
  mimics_askSame fun room hm => hm.scriptText room v

theorem mimics_kindName (v : Value) : Mimics ρ id (kindName v) (kindName (v.move ρ)) := by
  intro d d' hd
  have hkind := hd.heap.kindName v
  change Image _ id (.ok (d.heap.kindName v) d) (.ok (d'.heap.kindName (v.move ρ)) d')
  rw [hkind]
  exact .ok _ hd

theorem mimics_table? (v : Value) :
    Mimics ρ (Option.map (Prod.map ρ.address (Table.move ρ))) (table? v)
      (table? (v.move ρ)) := by
  intro d d' hd
  cases v with
  | table a =>
    change Image _ _ (.ok (some (a, d.heap.get a)) d)
      (.ok (some (ρ.address a, d'.heap.get (ρ.address a))) d')
    rw [hd.heap.get_eq]
    exact .ok _ hd
  | _ => exact .ok none hd

theorem mimics_alloc (t : Table) : Mimics ρ (Value.move ρ) (alloc t) (alloc (t.move ρ)) := by
  intro d d' hd
  obtain ⟨ha, hm⟩ := hd.heap.alloc t
  change Image _ _ (.ok (Value.table (d.heap.alloc t).1) _)
    (.ok (Value.table (d'.heap.alloc (t.move ρ)).1) _)
  rw [ha]
  exact .ok (Value.table _) ⟨hm, hd.room, hd.warnings⟩

theorem mimics_newNumber (n : Number) :
    Mimics ρ (Number.move ρ) (newNumber n) (newNumber (n.move ρ)) := by
  intro d d' hd
  obtain ⟨hn, hm⟩ := hd.heap.mark n
  change Image _ _ (.ok (d.heap.mark n).1 _) (.ok (d'.heap.mark _).1 _)
  rw [hn]
  exact .ok _ ⟨hm, hd.room, hd.warnings⟩

theorem mimics_toNumber? (v : Value) :
    Mimics ρ (Option.map (Number.move ρ)) (toNumber? v) (toNumber? (v.move ρ)) := by
  simp only [toNumber?, v.toNumber?_move]
  cases v.toNumber? with
  | none => exact .pure rfl
  | some n => exact .bind (mimics_newNumber n) fun n => .pure rfl

/-- Goes on with the number that a value is or writes, or without one. -/
theorem mimics_withNumber {g : α → β} (v : Value) {f : Option Number → Eval α}
    {f' : Option Number → Eval β} (hsome : ∀ n, Mimics ρ g (f (some n)) (f' (some (n.move ρ))))
    (hnone : Mimics ρ g (f none) (f' none)) :
    Mimics ρ g (toNumber? v >>= f) (toNumber? (v.move ρ) >>= f') := by
  refine .bind (mimics_toNumber? v) fun n? => ?_
  cases n? with
  | some n => exact hsome n
  | none => exact hnone

theorem mimics_literal (v : Value) :
    Mimics ρ (Value.move ρ) (literal v) (literal (v.move ρ)) := by
  simp only [literal, ask, bind_assoc]
  refine .get fun d d' hd => ?_
  have hl := hd.heap.literal d.room v
  rw [hd.room]
  cases hr : d.heap.literal d.room v with
  | error f =>
    rw [hr] at hl
    rw [hl]
    exact .throw f
  | ok r =>
    obtain ⟨w, g⟩ := r
    rw [hr] at hl
    obtain ⟨g', hg, hm⟩ := hl
    rw [hg]
    simp only [lift, pure_bind]
    exact .bindSame (.modify fun _ _ hd => ⟨hm, hd.room, hd.warnings⟩) fun _ => .pure rfl

end Eval

/-! ### Records, effects and scopes -/

mutual

def Field.move (ρ : Relocation) : Field → Field
  | .value v => .value (v.move ρ)
  | .list vs => .list (vs.map (Value.move ρ))
  | .map entries => .map (entries.map fun (k, v) => (k, v.move ρ))
  | .record fields => .record (Field.moveAll ρ fields)
  | .diagnostics ds => .diagnostics ds
termination_by structural f => f

def Field.moveAll (ρ : Relocation) : List (String × Field) → List (String × Field)
  | [] => []
  | (name, f) :: fs => (name, f.move ρ) :: Field.moveAll ρ fs
termination_by structural fs => fs

end

/-- A record of the log, with its values moved. -/
abbrev Record.move (ρ : Relocation) (r : Record) : Record := Field.moveAll ρ r

namespace Field

@[simp] theorem moveAll_nil : moveAll ρ [] = [] := rfl

@[simp] theorem moveAll_cons (name : String) (f : Field) (fs : Record) :
    moveAll ρ ((name, f) :: fs) = (name, f.move ρ) :: moveAll ρ fs := rfl

@[simp] theorem move_text (s : String) : (Field.text s).move ρ = .text s := rfl

@[simp] theorem move_textOrNil (s : Option String) :
    (Field.textOrNil s).move ρ = .textOrNil s := by
  cases s <;> rfl

@[simp] theorem move_bool (b : Bool) : (Field.bool b).move ρ = .bool b := rfl

@[simp] theorem move_int (n : Int) : (Field.int n).move ρ = .int n := rfl

@[simp] theorem move_number (n : Number) : (Field.number n).move ρ = .number (n.move ρ) := rfl

@[simp] theorem move_value (v : Value) : (Field.value v).move ρ = .value (v.move ρ) := rfl

@[simp] theorem move_list (vs : List Value) :
    (Field.list vs).move ρ = .list (vs.map (Value.move ρ)) := rfl

end Field

def Effect.move (ρ : Relocation) (e : Effect) : Effect where
  binding := e.binding.map fun (name, v) => (name, v.move ρ)
  write := e.write.map fun (a, t) => (ρ.address a, t.move ρ)
  entry := e.entry.map (Record.move ρ)
  output := e.output.map (Record.move ρ)

theorem Effect.move_refusal (scope : Scope) (action message : String) {extra : Record}
    (hx : extra.move ρ = extra) :
    (Effect.refusal scope action message extra).move ρ =
      .refusal scope action message extra := by
  simp [Effect.refusal, Effect.move, errorRecord, hx]

def Scope.move (ρ : Relocation) (s : Scope) : Scope where
  bindings := s.bindings.moveValues ρ
  label := s.label

namespace Scope

theorem get_move (s : Scope) (name : String) (absent : Value) :
    (s.move ρ).get name (absent.move ρ) = (s.get name absent).move ρ := by
  simp only [get, move, Dict.get?_moveValues]
  cases s.bindings.get? name <;> rfl

@[simp] theorem get_move_nil (s : Scope) (name : String) :
    (s.move ρ).get name = (s.get name).move ρ :=
  s.get_move name .nil

@[simp] theorem has_move (s : Scope) (name : String) : (s.move ρ).has name = s.has name :=
  Dict.contains_mapBoth (fun _ _ => rfl) _ _ name

end Scope

end NodeScript
