import NodeScript.Leaf.Basic
import NodeScript.Graph
import NodeScript.Proofs.Relocation.Values

/-!
Reading configurations under a relocation. What is made from relocated fields is the relocation of
what is made from the fields, and the same is wrong with both.
-/

namespace NodeScript

variable {ρ : Relocation} {h h' : Heap} {α β γ : Type}

/-! ### Checks -/

namespace Checked

theorem map_id (c : Checked α) : c.map id = c := by
  cases c <;> rfl

theorem map_map (c : Checked α) (f : α → β) (g : β → γ) : (c.map f).map g = c.map (g ∘ f) := by
  cases c <;> rfl

theorem map_seq (c : Checked (α → β)) (d : Checked α) (g : β → γ) :
    (c.seq d).map g = (c.map (g ∘ ·)).seq d := by
  cases c <;> cases d <;> rfl

theorem seq_map (c : Checked (β → γ)) (d : Checked α) (g : α → β) :
    c.seq (d.map g) = (c.map (· ∘ g)).seq d := by
  cases c <;> cases d <;> rfl

theorem within_map (c : Checked α) (g : α → β) (step : String) :
    (c.map g).within step = (c.within step).map g := by
  cases c <;> rfl

theorem sequence_cons (c : Checked α) (cs : List (Checked α)) :
    sequence (c :: cs) = (c.map List.cons).seq (sequence cs) := rfl

theorem sequence_map (g : α → β) (cs : List (Checked α)) :
    sequence (cs.map (map g)) = (sequence cs).map (List.map g) := by
  induction cs with
  | nil => rfl
  | cons c cs ih =>
    rw [List.map_cons, sequence_cons, sequence_cons, ih]
    cases c <;> cases sequence cs <;> rfl

end Checked

/-! ### Fields -/

def Fields.move (ρ : Relocation) (fields : Fields) : Fields :=
  fun name => (fields name).map (Value.move ρ)

theorem Dict.fields_eq_move (d : Dict Key Value) : (d.move ρ).fields = Fields.move ρ d.fields :=
  funext fun name => d.fields_move name

theorem Dict.get?_eq_move (d : Dict String Value) :
    (d.moveValues ρ).get? = Fields.move ρ d.get? :=
  funext fun name => d.get?_moveValues name

namespace Check

theorem text_move (v : Value) : text (v.move ρ) = text v := by
  cases v <;> rfl

theorem orNil_same {check check' : Value → Checked α} (hc : ∀ v, check' (v.move ρ) = check v)
    (v : Value) : orNil check' (v.move ρ) = orNil check v := by
  have hv := hc v
  cases v with
  | nil => rfl
  | _ => exact congrArg (Checked.map some) hv

theorem choice_move (options : List (String × α)) (v : Value) :
    choice options (v.move ρ) = choice options v := by
  cases v <;> rfl

theorem flag_move (v : Value) : flag (v.move ρ) = flag v := by
  cases v with
  | number n => cases n <;> rfl
  | _ => rfl

theorem list_move (hm : h.Moved ρ h') {check : Value → Checked α} {check' : Value → Checked β}
    {g : α → β} (hc : ∀ v, check' (v.move ρ) = (check v).map g) (v : Value) :
    list h' check' (v.move ρ) = (list h check v).map (List.map g) := by
  unfold list
  rw [hm.array?]
  cases h.array? v with
  | none => rfl
  | some items =>
    simp only [Option.map_some, List.zipIdx_map, List.map_map, ← Checked.sequence_map]
    congr 1
    simp [hc, Checked.within_map, Function.comp_def]

theorem list_same (hm : h.Moved ρ h') {check check' : Value → Checked α}
    (hc : ∀ v, check' (v.move ρ) = check v) (v : Value) :
    list h' check' (v.move ρ) = list h check v := by
  have hmove := list_move hm (g := id) (fun v => (hc v).trans (check v).map_id.symm) v
  rwa [List.map_id_fun, Checked.map_id] at hmove

end Check

namespace Decoder

variable (fields : Fields) (name : FieldName)

theorem map_apply (f : α → β) (d : Decoder α) : (f <$> d) fields = (d fields).map f := rfl

theorem seq_apply (d : Decoder (α → β)) (e : Decoder α) :
    (d <*> e) fields = (d fields).seq (e fields) := rfl

theorem find?_move : find? name (Fields.move ρ fields) =
    (find? name fields).map fun (used, v) => (used, v.move ρ) := by
  unfold find? Fields.move
  cases fields name.editor with
  | some v => rfl
  | none => cases fields name.plain <;> rfl

theorem optional_move {check : Value → Checked α} {check' : Value → Checked β} {g : α → β}
    (hc : ∀ v, check' (v.move ρ) = (check v).map g) (absent : α) :
    optional name (g absent) check' (Fields.move ρ fields) =
      (optional name absent check fields).map g := by
  unfold optional
  rw [find?_move]
  cases find? name fields with
  | none => rfl
  | some found => simp [hc, Checked.within_map]

theorem optional_same {check check' : Value → Checked α}
    (hc : ∀ v, check' (v.move ρ) = check v) (absent : α) :
    optional name absent check' (Fields.move ρ fields) = optional name absent check fields := by
  have hmove := optional_move (g := id) fields name (fun v => (hc v).trans (check v).map_id.symm)
    absent
  rwa [Checked.map_id] at hmove

theorem required_same {check check' : Value → Checked α}
    (hc : ∀ v, check' (v.move ρ) = check v) :
    required name check' (Fields.move ρ fields) = required name check fields := by
  unfold required
  rw [find?_move]
  cases find? name fields with
  | none => rfl
  | some found => simp [hc]

end Decoder

/-! ### Decoders side by side -/

namespace Checked

/-- Related values, or the same problems. -/
inductive Relates (R : α → β → Prop) : Checked α → Checked β → Prop
  | valid {a : α} {b : β} (h : R a b) : Relates R (.valid a) (.valid b)
  | invalid (problems : List Problem) : Relates R (.invalid problems) (.invalid problems)

theorem relates_map {c : Checked α} {c' : Checked β} {g : α → β} (h : c' = c.map g) :
    Relates (fun a b => b = g a) c c' := by
  subst h
  cases c with
  | valid a => exact .valid rfl
  | invalid problems => exact .invalid problems

theorem relates_same {c c' : Checked α} (h : c' = c) : Relates (fun a b => b = a) c c' := by
  subst h
  cases c' with
  | valid a => exact .valid rfl
  | invalid problems => exact .invalid problems

end Checked

namespace Decoder

variable {fields : Fields} {name : FieldName} {α' β' : Type}

/-- From relocated fields the second decoder makes what is related to what the first one makes from
the fields. -/
def Relates (ρ : Relocation) (R : α → β → Prop) (d : Decoder α) (d' : Decoder β) : Prop :=
  ∀ fields, (d fields).Relates R (d' (Fields.move ρ fields))

/-- From relocated fields the second decoder makes the image of what the first one makes. -/
abbrev Moves (ρ : Relocation) (g : α → β) (d : Decoder α) (d' : Decoder β) : Prop :=
  Relates ρ (fun a b => b = g a) d d'

theorem Moves.eq {g : α → β} {d : Decoder α} {d' : Decoder β} (h : Moves ρ g d d')
    (fields : Fields) : d' (Fields.move ρ fields) = (d fields).map g := by
  have hf := h fields
  generalize d fields = c, d' (Fields.move ρ fields) = c' at hf
  cases hf with
  | valid h => rw [h]; rfl
  | invalid problems => rfl

theorem Relates.map {R : α → α' → Prop} {S : β → β' → Prop} {f : α → β} {f' : α' → β'}
    {d : Decoder α} {d' : Decoder α'} (hf : ∀ a b, R a b → S (f a) (f' b)) (h : Relates ρ R d d') :
    Relates ρ S (f <$> d) (f' <$> d') := by
  intro fields
  have hd := h fields
  rw [map_apply, map_apply]
  generalize d fields = c, d' (Fields.move ρ fields) = c' at hd
  cases hd with
  | valid h => exact .valid (hf _ _ h)
  | invalid problems => exact .invalid problems

theorem Relates.seq {R : α → α' → Prop} {S : β → β' → Prop} {d : Decoder (α → β)}
    {d' : Decoder (α' → β')} {e : Decoder α} {e' : Decoder α'}
    (h : Relates ρ (fun f f' => ∀ a b, R a b → S (f a) (f' b)) d d') (he : Relates ρ R e e') :
    Relates ρ S (d <*> e) (d' <*> e') := by
  intro fields
  have hd := h fields
  have he := he fields
  rw [seq_apply, seq_apply]
  generalize d fields = c, d' (Fields.move ρ fields) = c' at hd
  generalize e fields = x, e' (Fields.move ρ fields) = x' at he
  cases hd with
  | valid hf =>
    cases he with
    | valid h => exact .valid (hf _ _ h)
    | invalid problems => exact .invalid problems
  | invalid problems =>
    cases he with
    | valid h => exact .invalid problems
    | invalid more => exact .invalid (problems ++ more)

theorem relates_optional {check check' : Value → Checked α} (hc : ∀ v, check' (v.move ρ) = check v)
    (absent : α) :
    Relates ρ (fun a b => b = a) (optional name absent check) (optional name absent check') :=
  fun fields => Checked.relates_same (optional_same fields name hc absent)

theorem relates_text (absent : String) :
    Relates ρ (fun a b => b = a) (text name absent) (text name absent) :=
  relates_optional Check.text_move absent

theorem relates_textOrNil : Relates ρ (fun a b => b = a) (textOrNil name) (textOrNil name) :=
  relates_optional (Check.orNil_same Check.text_move) none

theorem relates_flag (absent : Bool) :
    Relates ρ (fun a b => b = a) (flag name absent) (flag name absent) :=
  relates_optional Check.flag_move absent

theorem relates_choice (absent : α) (options : List (String × α)) :
    Relates ρ (fun a b => b = a) (optional name absent (Check.choice options))
      (optional name absent (Check.choice options)) :=
  relates_optional (Check.choice_move options) absent

theorem relates_sourceKind : Relates ρ (fun a b => b = a) (sourceKind name) (sourceKind name) :=
  relates_choice SourceKind.literal SourceKind.options

theorem moves_optional {check : Value → Checked α} {check' : Value → Checked β} {g : α → β}
    (hc : ∀ v, check' (v.move ρ) = (check v).map g) {absent : α} {absent' : β}
    (ha : g absent = absent') :
    Moves ρ g (optional name absent check) (optional name absent' check') := by
  subst ha
  exact fun fields => Checked.relates_map (optional_move fields name hc absent)

theorem moves_any {absent : Value} (ha : absent.move ρ = absent) :
    Moves ρ (Value.move ρ) (any name absent) (any name absent) :=
  moves_optional (fun _ => rfl) ha

end Decoder

/-! ### Sources -/

namespace Source

def move (ρ : Relocation) (s : Source) : Source := { s with value := s.value.move ρ }

theorem check_move (hm : h.Moved ρ h') (v : Value) :
    check h' (v.move ρ) = (check h v).map (move ρ) := by
  unfold check
  rw [hm.map?]
  cases h.map? v with
  | none => rfl
  | some entries =>
    have hfields : Decoder.Moves ρ (move ρ)
        (mk <$> Decoder.optional ⟨"type", "type"⟩ .literal (Check.choice SourceKind.options)
          <*> Decoder.any ⟨"value", "value"⟩)
        (mk <$> Decoder.optional ⟨"type", "type"⟩ .literal (Check.choice SourceKind.options)
          <*> Decoder.any ⟨"value", "value"⟩) := by
      refine .seq (.map ?_ (Decoder.relates_choice _ _)) (Decoder.moves_any rfl)
      rintro kind _ rfl value _ rfl
      rfl
    simp only [Option.map_some, Dict.fields_eq_move]
    exact hfields.eq entries.fields

end Source

theorem Decoder.moves_sources (hm : h.Moved ρ h') {name : FieldName} :
    Moves ρ (List.map (Source.move ρ)) (sources h name) (sources h' name) :=
  moves_optional (Check.list_move hm (Source.check_move hm)) rfl

/-! ### Instructions and graphs from data -/

theorem Dict.filter_mapBoth {κ : Type} {f : κ → κ} {keep : κ → Bool} (hk : ∀ k, keep (f k) = keep k)
    (g : α → β) (d : Dict κ α) : (d.mapBoth f g).filter keep = (d.filter keep).mapBoth f g := by
  simp [filter, mapBoth, List.filter_map, Function.comp_def, hk]

namespace Instruction

def move (ρ : Relocation) (i : Instruction) : Instruction :=
  { i with config := i.config.moveValues ρ }

@[simp] theorem tag_move (i : Instruction) : (i.move ρ).tag = i.tag := rfl

@[simp] theorem control_move (i : Instruction) : (i.move ρ).control = i.control := rfl

theorem isOwnMember_move (k : Key) : isOwnMember (k.move ρ) = isOwnMember k := by
  cases k <;> rfl

theorem keyStep_move (k : Key) : keyStep (k.move ρ) = keyStep k := by
  have hplain : (k.move ρ).plain = k.plain := k.plain_move
  cases k with
  | number n => exact congrArg (fun s => s.toOption.getD "<unprintable int object>") hplain
  | _ => rfl

theorem isBlankValue_move (hm : h.Moved ρ h') (v : Value) :
    isBlankValue h' (v.move ρ) = isBlankValue h v := by
  cases v with
  | number n => exact n.isZero_move
  | table a =>
    simp only [isBlankValue, Value.move_table, hm.get_eq]
    cases h.get a <;> simp [Table.move]
  | _ => rfl

def ConfigSource.move (ρ : Relocation) : ConfigSource → ConfigSource
  | .absent => .absent
  | .given v => .given (v.move ρ)
  | .merged entries => .merged (entries.move ρ)

theorem configSource_move (hm : h.Moved ρ h') (node : Dict Key Value) :
    configSource h' (node.move ρ) = (configSource h node).map (ConfigSource.move ρ) := by
  have hgiven : (node.move ρ).get? (.text "config") = _ := node.get?_move (.text "config")
  have hid : (node.move ρ).contains (.text "runtimeId") = _ :=
    Dict.contains_mapBoth Key.beq_move _ node (.text "runtimeId")
  have hinline : (node.move ρ).filter (fun k => !isOwnMember k) =
      (node.filter fun k => !isOwnMember k).move ρ :=
    Dict.filter_mapBoth (fun k => by rw [isOwnMember_move]) (Value.move ρ) node
  simp only [configSource, hgiven, hid, hinline, Dict.isEmpty_mapBoth]
  split
  · cases node.get? (.text "config") <;> rfl
  · cases node.get? (.text "config") with
    | none => rfl
    | some v =>
      simp only [Option.map_some, isBlankValue_move hm, hm.map?, hm.fullKindName]
      split
      · rfl
      · cases h.map? v with
        | none => rfl
        | some entries =>
          exact congrArg (fun d => Except.ok (ConfigSource.merged d))
            (Dict.insertAll_mapBoth Key.beq_move _ _ entries.entries)

theorem checkEntries_move (entries : Dict Key Value) :
    checkEntries (entries.move ρ) = (checkEntries entries).map (Dict.moveValues ρ) := by
  unfold checkEntries
  dsimp only
  rw [Dict.entries_mapBoth, List.map_map, Checked.map_map]
  -- An entry with a key that is no text is reported alike on both sides.
  rw [show Dict.moveValues ρ ∘ Dict.mk = Dict.mk ∘ List.map fun (s, v) => (s, v.move ρ) from rfl,
    ← Checked.map_map, ← Checked.sequence_map, List.map_map]
  congr 2
  apply List.map_congr_left
  rintro ⟨k, v⟩ -
  have hstep := keyStep_move (ρ := ρ) k
  cases k with
  | number n =>
    exact congrArg (fun step => ((Checked.fail .notText).within "[key]").within step) hstep
  | _ => rfl

theorem checkConfig_move (hm : h.Moved ρ h') (source : ConfigSource) :
    checkConfig h' (source.move ρ) = (checkConfig h source).map (Dict.moveValues ρ) := by
  cases source with
  | absent => rfl
  | merged entries =>
    simp only [checkConfig, ConfigSource.move, checkEntries_move, Checked.within_map]
  | given v =>
    simp only [checkConfig, ConfigSource.move, hm.map?]
    cases h.map? v with
    | none => rfl
    | some entries => simp only [Option.map_some, checkEntries_move, Checked.within_map]

theorem checkRuntimeId_move (node : Dict Key Value) :
    checkRuntimeId (runtimeIdSource (node.move ρ)) = checkRuntimeId (runtimeIdSource node) := by
  have hplain : (node.move ρ).get? (.text "runtime_id") = _ := node.get?_move (.text "runtime_id")
  have heditor : (node.move ρ).get? (.text "runtimeId") = _ := node.get?_move (.text "runtimeId")
  have hcheck (v : Value) : Check.orNil Check.text (v.move ρ) = Check.orNil Check.text v :=
    Check.orNil_same Check.text_move v
  simp only [runtimeIdSource, hplain, heditor]
  cases node.get? (.text "runtime_id") with
  | some v => simp [checkRuntimeId, hcheck]
  | none => cases node.get? (.text "runtimeId") <;> simp [checkRuntimeId, hcheck]

theorem checkTag_move (v : Value) : checkTag (v.move ρ) = checkTag v := by
  simp only [checkTag, Check.text_move]

theorem ofValue_move (hm : h.Moved ρ h') (raw : Value) :
    ofValue h' (raw.move ρ) = (ofValue h raw).map (Checked.map (move ρ)) := by
  unfold ofValue
  rw [hm.map?]
  cases h.map? raw with
  | none => rfl
  | some node =>
    have htag := Decoder.required_same (ρ := ρ) node.fields ⟨"id", "type"⟩ checkTag_move
    have hlabel := Decoder.optional_same (ρ := ρ) node.fields ⟨"label", "label"⟩
      (Check.orNil_same Check.text_move) none
    simp only [Option.map_some, Dict.fields_eq_move, configSource_move hm, checkRuntimeId_move,
      htag, hlabel]
    cases configSource h node with
    | error f => rfl
    | ok source =>
      refine congrArg Except.ok ?_
      change Checked.seq (Checked.seq (Checked.seq (Checked.map mk _) _) _) _ =
        Checked.map _ (Checked.seq (Checked.seq (Checked.seq (Checked.map mk _) _) _) _)
      simp only [checkConfig_move hm, Checked.seq_map, Checked.map_seq, Checked.map_map]
      rfl

end Instruction

namespace Graph

def move (ρ : Relocation) (g : Graph) : Graph :=
  { g with instructions := g.instructions.map (Instruction.move ρ) }

theorem checkNodes_move (hm : h.Moved ρ h') (index : Nat) (vs : List Value) :
    checkNodes h' index (vs.map (Value.move ρ)) =
      (checkNodes h index vs).map (Checked.map (List.map (Instruction.move ρ))) := by
  induction vs generalizing index with
  | nil => rfl
  | cons v vs ih =>
    simp only [List.map_cons, checkNodes, Instruction.ofValue_move hm, ih]
    cases Instruction.ofValue h v with
    | error f => rfl
    | ok first =>
      cases checkNodes h (index + 1) vs with
      | error f => rfl
      | ok others =>
        refine congrArg Except.ok ?_
        cases first <;> cases others <;> rfl

theorem checkInstructions_move (hm : h.Moved ρ h') (fields : Fields) :
    checkInstructions h' (Fields.move ρ fields) =
      (checkInstructions h fields).map (Checked.map (List.map (Instruction.move ρ))) := by
  unfold checkInstructions
  rw [Decoder.find?_move]
  cases Decoder.find? nodesName fields with
  | none => rfl
  | some found =>
    simp only [Option.map_some, hm.array?]
    cases h.array? found.2 with
    | none => rfl
    | some items =>
      simp only [Option.map_some, checkNodes_move hm]
      cases checkNodes h 0 items with
      | error f => rfl
      | ok checked => exact congrArg Except.ok (checked.within_map _ _)

theorem ofValue_move (hm : h.Moved ρ h') (raw : Value) :
    ofValue h' (raw.move ρ) = (ofValue h raw).map (Checked.map (move ρ)) := by
  unfold ofValue
  rw [hm.map?]
  cases h.map? raw with
  | none => rfl
  | some entries =>
    have hparameters := Decoder.optional_same (ρ := ρ) entries.fields ⟨"parameters", "parameters"⟩
      (Check.orNil_same (Check.list_same hm Check.text_move)) none
    have hside := Decoder.optional_same (ρ := ρ) entries.fields ⟨"scope", "scope"⟩
      (Check.orNil_same (Check.choice_move Side.options)) none
    have hdescription := Decoder.optional_same (ρ := ρ) entries.fields
      ⟨"description", "description"⟩ (Check.orNil_same Check.text_move) none
    simp only [Option.map_some, ofFields, Dict.fields_eq_move, checkInstructions_move hm,
      hparameters, hside, hdescription]
    cases checkInstructions h entries.fields with
    | error f => rfl
    | ok checked =>
      refine congrArg Except.ok ?_
      change Checked.seq (Checked.seq (Checked.seq (Checked.map mk _) _) _) _ =
        Checked.map _ (Checked.seq (Checked.seq (Checked.seq (Checked.map mk _) _) _) _)
      simp only [Checked.map_seq, Checked.map_map]
      rfl

end Graph

end NodeScript
