import NodeScript.Proofs.Configurations
import NodeScript.Proofs.Limits.Trees

/-!
Where the instructions of a graph come from. Each instruction that is made from data stands as a node
in the list of the graph, and each value of its configuration stands in that node, beside the members
that all nodes have, or in the map that the node names as its configuration.
-/

namespace NodeScript

variable {h : Heap} {v : Value} {i : Instruction}

theorem Decoder.name_of_find? {name : FieldName} {fields : Fields} {used : String} {w : Value}
    (hf : find? name fields = some (used, w)) : used = name.editor ∨ used = name.plain := by
  unfold find? at hf
  split at hf
  · cases hf
    exact .inl rfl
  · obtain ⟨_, -, ⟨⟩⟩ := Option.map_eq_some_iff.1 hf
    exact .inr rfl

namespace Instruction

/-- A node configures its instruction with a value: inline or in its configuration. -/
inductive Configures (h : Heap) (v w : Value) : Prop
  | inline {node : Dict Key Value} {k : Key} (hm : h.map? v = some node)
      (he : (k, w) ∈ node.entries) (hk : isOwnMember k = false) : Configures h v w
  | config {node d : Dict Key Value} {u : Value} {k : Key} (hm : h.map? v = some node)
      (hu : node.get? (.text "config") = some u) (hd : h.map? u = some d)
      (he : (k, w) ∈ d.entries) : Configures h v w

theorem mem_of_checkEntries {d : Dict Key Value} {config : Dict String Value}
    (hr : checkEntries d = .valid config) : ∀ e ∈ config.entries, ∃ k, (k, e.2) ∈ d.entries := by
  obtain ⟨pairs, hpairs, rfl⟩ := Checked.exists_of_map hr
  refine Checked.forall_of_sequence hpairs fun checked hmem p hp => ?_
  obtain ⟨⟨k, w⟩, he, rfl⟩ := List.mem_map.1 hmem
  cases k with
  | text s =>
    cases hp
    exact ⟨_, he⟩
  | _ => cases hp

/-- Inline members and the entries of the configuration are merged, or the configuration is used as
it is given. -/
theorem configSource_cases {node : Dict Key Value} {source : ConfigSource}
    (hm : h.map? v = some node) (hr : configSource h node = .ok source) :
    source = .absent ∨
    (∃ u, source = .given u ∧ node.get? (.text "config") = some u) ∨
    ∃ d, source = .merged d ∧ ∀ e ∈ d.entries, Configures h v e.2 := by
  have hinline (e : Key × Value) (he : e ∈ (node.filter fun k => !isOwnMember k).entries) :
      Configures h v e.2 := by
    obtain ⟨hmem, hk⟩ := List.mem_filter.1 he
    exact .inline hm hmem (by simpa using hk)
  unfold configSource at hr
  dsimp only at hr
  split at hr
  · cases hr
    cases hu : node.get? (.text "config") with
    | none => exact .inl rfl
    | some u => exact .inr (.inl ⟨u, rfl, rfl⟩)
  · split at hr
    · cases hr
      exact .inr (.inr ⟨_, rfl, hinline⟩)
    · next u hu =>
      split at hr
      · cases hr
        exact .inr (.inr ⟨_, rfl, hinline⟩)
      · split at hr
        · next entries hd =>
          cases hr
          have hall := Dict.forall_insertAll (P := fun _ : Key => True) (Q := Configures h v)
            (fun e he => ⟨trivial, hinline e he⟩) (fun e he => ⟨trivial, .config hm hu hd he⟩)
          exact .inr (.inr ⟨_, rfl, fun e he => (hall e he).2⟩)
        · cases hr

/-- The configuration of an instruction comes from its node. -/
theorem configures_of_ofValue (hr : ofValue h v = .ok (.valid i)) :
    ∀ e ∈ i.config.entries, Configures h v e.2 := by
  unfold ofValue at hr
  split at hr
  · cases hr
  · next node hm =>
    -- The parts are checked one after the other; the configuration is the third of four.
    obtain ⟨source, hsource, hparts⟩ := Serial.exists_of_bind hr
    obtain ⟨_, _, hthree, -, rfl⟩ := Checked.exists_of_seq (Except.ok.inj hparts)
    obtain ⟨_, config, htwo, hconfig, rfl⟩ := Checked.exists_of_seq hthree
    obtain ⟨_, _, hone, -, rfl⟩ := Checked.exists_of_seq htwo
    obtain ⟨_, -, rfl⟩ := Checked.exists_of_map hone
    obtain rfl | ⟨u, rfl, hu⟩ | ⟨d, rfl, hd⟩ := configSource_cases hm hsource
    · cases hconfig
      exact nofun
    · unfold checkConfig at hconfig
      dsimp only at hconfig
      split at hconfig
      · next d hd =>
        intro e he
        obtain ⟨k, hk⟩ := mem_of_checkEntries (Checked.valid_of_within hconfig) e he
        exact .config hm hu hd hk
      · cases hconfig
    · intro e he
      obtain ⟨k, hk⟩ := mem_of_checkEntries (Checked.valid_of_within hconfig) e he
      exact hd _ hk

end Instruction

namespace Graph

theorem node_of_checkNodes {vs : List Value} {index : Nat} {instructions : List Instruction}
    (hr : checkNodes h index vs = .ok (.valid instructions)) :
    ∀ i ∈ instructions, ∃ v ∈ vs, Instruction.ofValue h v = .ok (.valid i) := by
  induction vs generalizing index instructions with
  | nil =>
    cases hr
    exact nofun
  | cons v vs ih =>
    obtain ⟨first, hfirst, hr⟩ := Serial.exists_of_bind hr
    obtain ⟨others, hothers, hr⟩ := Serial.exists_of_bind hr
    obtain ⟨_, rest, hcons, rfl, rfl⟩ := Checked.exists_of_seq (Except.ok.inj hr)
    obtain ⟨i, hi, rfl⟩ := Checked.exists_of_map hcons
    obtain rfl := Checked.valid_of_within hi
    refine List.forall_mem_cons.2 ⟨⟨v, List.mem_cons_self, hfirst⟩, fun i hi => ?_⟩
    obtain ⟨w, hw, hi⟩ := ih hothers i hi
    exact ⟨w, List.mem_cons_of_mem v hw, hi⟩

/-- A node of a graph: an item of the list that the graph has under one of two names. -/
structure HasNode (h : Heap) (v node : Value) : Prop where
  exists_list : ∃ entries used nodes items, h.map? v = some entries ∧
    (used = "nodes" ∨ used = "instructions") ∧ entries.get? (.text used) = some nodes ∧
    h.array? nodes = some items ∧ node ∈ items

/-- The instructions of a graph come from its nodes. -/
theorem node_of_ofValue {graph : Graph} (hr : ofValue h v = .ok (.valid graph)) :
    ∀ i ∈ graph.instructions, ∃ node, HasNode h v node ∧
      Instruction.ofValue h node = .ok (.valid i) := by
  unfold ofValue at hr
  split at hr
  · cases hr
  · next entries hm =>
    obtain ⟨checked, hchecked, hparts⟩ := Serial.exists_of_bind hr
    obtain ⟨_, _, hthree, -, rfl⟩ := Checked.exists_of_seq (Except.ok.inj hparts)
    obtain ⟨_, _, htwo, -, rfl⟩ := Checked.exists_of_seq hthree
    obtain ⟨_, _, hone, -, rfl⟩ := Checked.exists_of_seq htwo
    obtain ⟨instructions, rfl, rfl⟩ := Checked.exists_of_map hone
    unfold checkInstructions at hchecked
    split at hchecked
    · cases hchecked
      exact nofun
    · next used nodes hnodes =>
      have hget : entries.get? (.text used) = some nodes := Decoder.eq_some_of_find? hnodes
      split at hchecked
      · next items hitems =>
        obtain ⟨checked, hr, hchecked⟩ := Serial.exists_of_bind hchecked
        obtain rfl := Checked.valid_of_within (Except.ok.inj hchecked)
        intro i hi
        obtain ⟨node, hnode, hi⟩ := node_of_checkNodes hr i hi
        exact ⟨node, ⟨entries, used, nodes, items, hm, Decoder.name_of_find? hnodes, hget, hitems,
          hnode⟩, hi⟩
      · cases hchecked

end Graph

theorem Library.ofValue_of_graphOfData {key : String} {graph : Graph}
    (hr : graphOfData h key v = .ok graph) : Graph.ofValue h v = .ok (.valid graph) := by
  unfold graphOfData at hr
  split at hr
  · cases hr
  · cases hr
  · dsimp only at hr
    split at hr
    · cases hr
    · obtain ⟨checked, hchecked, hr⟩ := Serial.exists_of_bind hr
      cases checked with
      | invalid problems => cases hr
      | valid graph' =>
        cases hr
        exact hchecked

/-- A graph that a call finds as data is made from the data under its key. -/
theorem Library.ofValue_of_resolve {data : Value} {settings : Settings} {key : String}
    {graph : Graph}
    (hr : (⟨some (.ofData data), settings⟩ : Library).resolve h key = .ok graph) :
    ∃ d w, h.map? data = some d ∧ d.get? (.text key) = some w ∧
      Graph.ofValue h w = .ok (.valid graph) := by
  simp only [resolve, GraphLookup.ofData] at hr
  cases hm : h.map? data with
  | none =>
    rw [hm] at hr
    cases hr
  | some d =>
    cases hget : d.get? (.text key) with
    | none =>
      rw [hm, Option.bind_some, hget] at hr
      cases hr
    | some w =>
      rw [hm, Option.bind_some, hget] at hr
      obtain ⟨found, hfound, hr⟩ := Serial.exists_of_bind hr
      split at hr
      · cases hr
        exact ⟨d, w, rfl, hget, ofValue_of_graphOfData hfound⟩
      · cases hr

end NodeScript
