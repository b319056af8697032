import NodeScript.Proofs.Places

/-!
Graphs that are looked up as data, and made into graphs at every call, run like the graphs of a store
that were made once from the same data. Scripts may change the tables that stand as values in the
configurations, which both share. As long as what makes up the graphs is out of their reach, the data
is read the same way at every call.
-/

namespace NodeScript

variable {h h₀ : Heap} {data v : Value}

/-! ### Reading depends on what makes up the graphs -/

/-- The value is no table, or one that is the same in both heaps. -/
def Value.Same (h h₀ : Heap) (v : Value) : Prop :=
  ∀ a, v = .table a → h.get a = h₀.get a

namespace Value.Same

variable (hv : v.Same h h₀)

include hv

theorem map?_eq : h.map? v = h₀.map? v := by
  cases v with
  | table a => simp only [Heap.map?, hv a rfl]
  | _ => rfl

theorem array?_eq : h.array? v = h₀.array? v := by
  cases v with
  | table a => simp only [Heap.array?, hv a rfl]
  | _ => rfl

theorem kindName_eq : h.kindName v = h₀.kindName v := by
  cases v with
  | table a => simp only [Heap.kindName, hv a rfl]
  | number n => cases n <;> rfl
  | _ => rfl

theorem fullKindName_eq : h.fullKindName v = h₀.fullKindName v := by
  cases v with
  | table a => exact kindName_eq hv
  | _ => simp only [Heap.fullKindName, hv.kindName_eq]

theorem isBlankValue_eq : Instruction.isBlankValue h v = Instruction.isBlankValue h₀ v := by
  cases v with
  | table a => simp only [Instruction.isBlankValue, hv a rfl]
  | _ => rfl

theorem list_eq {α : Type} (check : Value → Checked α) :
    Check.list h check v = Check.list h₀ check v := by
  simp only [Check.list, hv.array?_eq]

end Value.Same

section

-- What makes up the graphs is the same in both heaps.
variable (hsame : ∀ p v, h₀.MakesUp data p v → v.Same h h₀)

include hsame

theorem Instruction.ofValue_same (hv : h₀.MakesUp data .node v) : ofValue h v = ofValue h₀ v := by
  unfold ofValue
  rw [(hsame _ v hv).map?_eq]
  cases hm : h₀.map? v with
  | none => rfl
  | some node =>
    have hconfig {u : Value} (hu : node.get? (.text "config") = some u) : u.Same h h₀ :=
      hsame _ u (.config hv hm hu)
    have hsource : configSource h node = configSource h₀ node := by
      unfold configSource
      cases hu : node.get? (.text "config") with
      | none => rfl
      | some u =>
        simp only [(hconfig hu).isBlankValue_eq, (hconfig hu).map?_eq, (hconfig hu).fullKindName_eq]
    dsimp only
    rw [hsource]
    cases hr : configSource h₀ node with
    | error f => rfl
    | ok source =>
      have hcheck : checkConfig h source = checkConfig h₀ source := by
        obtain rfl | ⟨u, rfl, hu⟩ | ⟨d, rfl, -⟩ := configSource_cases hm hr
        · rfl
        · simp only [checkConfig, (hconfig hu).map?_eq]
        · rfl
      simp only [bind, Except.bind, hcheck]

theorem Graph.checkNodes_same (vs : List Value) (index : Nat)
    (hvs : ∀ v ∈ vs, h₀.MakesUp data .node v) : checkNodes h index vs = checkNodes h₀ index vs := by
  induction vs generalizing index with
  | nil => rfl
  | cons v vs ih =>
    obtain ⟨hv, hvs⟩ := List.forall_mem_cons.1 hvs
    simp only [checkNodes, Instruction.ofValue_same hsame hv, ih _ hvs]

theorem Graph.ofValue_same (hv : h₀.MakesUp data .graph v) : ofValue h v = ofValue h₀ v := by
  unfold ofValue
  rw [(hsame _ v hv).map?_eq]
  cases hm : h₀.map? v with
  | none => rfl
  | some entries =>
    have hinstructions : checkInstructions h entries.fields = checkInstructions h₀ entries.fields := by
      unfold checkInstructions
      split
      · rfl
      · next used nodes hfind =>
        have hnodes : h₀.MakesUp data .nodes nodes := .nodes hv hm hfind
        rw [(hsame _ nodes hnodes).array?_eq]
        split
        · next items hitems =>
          rw [checkNodes_same hsame items 0 fun w hw => .node hnodes hitems hw]
        · rfl
    have hparameters :
        Decoder.optional ⟨"parameters", "parameters"⟩ none
            (Check.orNil (Check.list h Check.text)) entries.fields =
          Decoder.optional ⟨"parameters", "parameters"⟩ none
            (Check.orNil (Check.list h₀ Check.text)) entries.fields := by
      unfold Decoder.optional
      split
      · next used names hfind =>
        have hlist := (hsame _ names (.names hv hm hfind)).list_eq Check.text
        cases names <;> simp only [Check.orNil, hlist]
      · rfl
    simp only [ofFields, hinstructions, hparameters]

theorem Library.graphOfData_same (key : String) (hv : h₀.MakesUp data .graph v) :
    graphOfData h key v = graphOfData h₀ key v := by
  have hgraph := hsame _ v hv
  unfold graphOfData
  rw [hgraph.map?_eq, hgraph.kindName_eq]
  split
  · rfl
  · rfl
  · next entries _ hm =>
    have hnodes : ((Decoder.find? Graph.nodesName entries.fields).map Prod.snd).bind h.array? =
        ((Decoder.find? Graph.nodesName entries.fields).map Prod.snd).bind h₀.array? := by
      cases hfind : Decoder.find? Graph.nodesName entries.fields with
      | none => rfl
      | some found => exact (hsame _ found.2 (.nodes hv hm hfind)).array?_eq
    simp only [hnodes, Graph.ofValue_same hsame hv]

theorem Library.resolve_same (settings : Settings) (key : String) :
    (⟨some (.ofData data), settings⟩ : Library).resolve h key =
      (⟨some (.ofData data), settings⟩ : Library).resolve h₀ key := by
  simp only [resolve, GraphLookup.ofData, (hsame _ data .library).map?_eq]
  cases hm : h₀.map? data with
  | none => rfl
  | some d =>
    cases hw : d.get? (.text key) with
    | none => simp [hw]
    | some w => simp [hw, graphOfData_same hsame key (.graph hm hw)]

end

/-! ### Dictionaries -/

namespace Dict

variable {κ α : Type} [BEq κ]

/-- No key stands before a key that it is the same as. -/
def Distinct (entries : List (κ × α)) : Prop :=
  entries.Pairwise fun e e' => (e.1 == e'.1) = false

theorem distinct_put {entries : List (κ × α)} (hd : Distinct entries) (k : κ) (v : α) :
    Distinct (put k v entries) := by
  induction entries with
  | nil => exact List.pairwise_singleton _ _
  | cons e es ih =>
    obtain ⟨hhead, htail⟩ := List.pairwise_cons.1 hd
    unfold put
    split
    · exact List.pairwise_cons.2 ⟨hhead, htail⟩
    · next hne =>
      refine List.pairwise_cons.2 ⟨?_, ih htail⟩
      -- The keys behind the first are those that were there, and the new one.
      have hkeys := forall_put (P := fun j => (e.1 == j) = false) (Q := fun _ : α => True) (v := v)
        (Bool.eq_false_iff.2 hne) trivial (fun e' he' => ⟨hhead e' he', trivial⟩)
      exact fun e' he' => (hkeys e' he').1

theorem distinct_ofList (pairs : List (κ × α)) : Distinct (ofList pairs).entries := by
  have hall (d : Dict κ α) (hd : Distinct d.entries) : Distinct (d.insertAll pairs).entries := by
    induction pairs generalizing d with
    | nil => exact hd
    | cons e es ih => exact ih _ (distinct_put hd e.1 e.2)
  exact hall {} List.Pairwise.nil

theorem put_eq_append {entries : List (κ × α)} {k : κ}
    (hk : ∀ e ∈ entries, (e.1 == k) = false) (v : α) : put k v entries = entries ++ [(k, v)] := by
  induction entries with
  | nil => rfl
  | cons e es ih =>
    obtain ⟨hhead, htail⟩ := List.forall_mem_cons.1 hk
    simp [put, hhead, ih htail]

/-- Pairs with different keys are the entries of the map that is made from them. -/
theorem entries_ofList {pairs : List (κ × α)} (hd : Distinct pairs) :
    (ofList pairs).entries = pairs := by
  have hall (d : Dict κ α) (hd : Distinct (d.entries ++ pairs)) :
      (d.insertAll pairs).entries = d.entries ++ pairs := by
    induction pairs generalizing d with
    | nil => simp [insertAll]
    | cons e es ih =>
      have hnew : ∀ e' ∈ d.entries, (e'.1 == e.1) = false := fun e' he' =>
        (List.pairwise_append.1 hd).2.2 e' he' e List.mem_cons_self
      have hput : (d.insert e.1 e.2).entries = d.entries ++ [e] := put_eq_append hnew e.2
      have hrest := ih (List.pairwise_cons.1 (List.pairwise_append.1 hd).2.1).2
        (d.insert e.1 e.2) (by rw [hput, List.append_assoc]; exact hd)
      rw [hput, List.append_assoc] at hrest
      exact hrest
  exact hall {} hd

end Dict

/-! ### A store and the data that it is made from -/

/-- A key with data, and the key with the graph that is made from the data. -/
structure Store.Made (h : Heap) (e : Key × Value) (g : String × Graph) : Prop where
  key : e.1 = .text g.1
  graph : Library.graphOfData h g.1 e.2 = .ok g.2

namespace Store

theorem ok_of_liftFault {α : Type} {e : Except Fault α} {a : α} (he : liftFault e = .ok a) :
    e = .ok a := by
  cases e with
  | ok b =>
    cases he
    rfl
  | error f => cases he

/-- A map that the store accepts as a graph is accepted at a call, too. -/
theorem made_of_checkGraph {s : String} {d : Dict Key Value} {g : String × Graph}
    (hm : h.map? v = some d) (hr : checkGraph h (.text s) v = .ok g) : Made h (.text s, v) g := by
  obtain ⟨a, rfl, hget⟩ := Heap.map?_eq_some.1 hm
  have hlist : h.array? (.table a) = none := by simp [Heap.array?, hget]
  unfold checkGraph at hr
  rw [hlist, hm] at hr
  dsimp only at hr
  split at hr
  · cases hr
  · next hnodes =>
    obtain ⟨checked, hchecked, hr⟩ := Serial.exists_of_bind hr
    have hgraph := ok_of_liftFault hchecked
    cases checked with
    | invalid problems => cases hr
    | valid graph =>
      cases hr
      refine ⟨rfl, ?_⟩
      simp only [Library.graphOfData, hm, hnodes, hgraph]
      rfl

/-- The graphs of a store come from the data under their keys, in the same order. -/
theorem made_of_checkGraphs {entries : List (Key × Value)} {graphs : List (String × Graph)}
    (hmaps : ∀ e ∈ entries, ∃ s d, e.1 = .text s ∧ h.map? e.2 = some d)
    (hr : checkGraphs h entries = .ok graphs) : List.Forall₂ (Made h) entries graphs := by
  induction entries generalizing graphs with
  | nil =>
    cases hr
    exact .nil
  | cons e es ih =>
    obtain ⟨⟨s, d, hkey, hm⟩, hes⟩ := List.forall_mem_cons.1 hmaps
    obtain ⟨k, w⟩ := e
    obtain rfl : k = .text s := hkey
    obtain ⟨first, hfirst, hr⟩ := Serial.exists_of_bind hr
    obtain ⟨others, hothers, hr⟩ := Serial.exists_of_bind hr
    cases hr
    exact .cons (made_of_checkGraph hm hfirst) (ih hes hothers)

theorem keys_of_made {entries : List (Key × Value)} {graphs : List (String × Graph)}
    (hmade : List.Forall₂ (Made h) entries graphs) :
    entries.map Prod.fst = graphs.map fun g => .text g.1 := by
  induction hmade with
  | nil => rfl
  | cons hfirst _ ih => simp [hfirst.key, ih]

theorem distinct_of_made {entries : List (Key × Value)} {graphs : List (String × Graph)}
    (hmade : List.Forall₂ (Made h) entries graphs) (hd : Dict.Distinct entries) :
    Dict.Distinct graphs := by
  have hkeys : (entries.map Prod.fst).Pairwise fun j k => (j == k) = false :=
    List.pairwise_map.2 hd
  rw [keys_of_made hmade] at hkeys
  exact List.pairwise_map.1 hkeys

/-- Under each key there are both data and the graph that is made from it, or neither. -/
theorem find?_of_made {entries : List (Key × Value)} {graphs : List (String × Graph)}
    (hmade : List.Forall₂ (Made h) entries graphs) (key : String) :
    (entries.find? (·.1 == .text key) = none ∧ graphs.find? (·.1 == key) = none) ∨
      ∃ w graph, entries.find? (·.1 == .text key) = some (.text key, w) ∧
        graphs.find? (·.1 == key) = some (key, graph) ∧
        Library.graphOfData h key w = .ok graph := by
  induction hmade with
  | nil => exact .inl ⟨rfl, rfl⟩
  | @cons e g es gs hfirst _ ih =>
    obtain ⟨k, w⟩ := e
    obtain ⟨name, graph⟩ := g
    obtain rfl : k = .text name := hfirst.key
    by_cases hname : name = key
    · subst hname
      have hsame : (Key.text name == Key.text name) = true := beq_self_eq_true name
      exact .inr ⟨w, graph, List.find?_cons_of_pos hsame, by simp, hfirst.graph⟩
    · have hne : (name == key) = false := beq_false_of_ne hname
      have hother : (Key.text name == Key.text key) = false := hne
      simpa [List.find?_cons, hname, hother] using ih

end Store

/-! ### Graphs as data in the heap -/

/-- Graphs as data: a map from different texts, none of them `graphs`, to maps. -/
structure Heap.IsLibrary (h : Heap) (data : Value) (d : Dict Key Value) : Prop where
  map : h.map? data = some d
  distinct : Dict.Distinct d.entries
  keys : ∀ e ∈ d.entries, ∃ s, s ≠ "graphs" ∧ e.1 = .text s
  maps : ∀ e ∈ d.entries, ∃ content, h.map? e.2 = some content

/-- Graphs as data, each a map under a text key. -/
def Tree.ofGraphs (graphs : List (String × List (Key × Tree))) : Tree :=
  .map (graphs.map fun g => (.text g.1, .map g.2))

namespace Heap

/-- A map is stored as the next table. -/
theorem get_build_map (entries : List (Key × Tree)) (path : List Address) (h : Heap) :
    h.size < (build (.map entries) path h).2.size ∧
      (build (.map entries) path h).2.get h.size =
        .map (.ofList (buildEntries entries (h.size :: path) h.reserve.2).1) := by
  have hlt := size_lt_of_reserve (extends_buildEntries entries (h.size :: path) h.reserve.2)
  refine ⟨?_, ?_⟩
  · simpa only [build, address_reserve, size_set] using hlt
  · simp only [build, address_reserve, get_set _ _ _ _ hlt, if_true]

/-- The table is a map that was made after those of an earlier heap. -/
def NewMap (h g : Heap) (v : Value) : Prop :=
  ∃ (a : Nat) (d : Dict Key Value), v = .table a ∧ h.size ≤ a ∧ a < g.size ∧ g.get a = .map d

theorem newMap_of_buildEntries (graphs : List (String × List (Key × Tree))) (path : List Address)
    (h : Heap) :
    let built := buildEntries (graphs.map fun g => (.text g.1, .map g.2)) path h
    ∀ e ∈ built.1, (∃ g ∈ graphs, e.1 = .text g.1) ∧ NewMap h built.2 e.2 := by
  induction graphs generalizing h with
  | nil => exact List.forall_mem_nil _
  | cons g gs ih =>
    intro built
    obtain ⟨hlt, hget⟩ := get_build_map g.2 path h
    have hfirst := extends_build (.map g.2) path h
    have hrest : (build (.map g.2) path h).2.Extends built.2 := extends_buildEntries _ path _
    refine List.forall_mem_cons.2 ⟨⟨⟨g, List.mem_cons_self, rfl⟩, h.size, _, rfl, Nat.le_refl _,
      Nat.lt_of_lt_of_le hlt hrest.size_le, (hrest.kept h.size hlt).trans hget⟩, fun e he => ?_⟩
    obtain ⟨⟨g', hg', hkey⟩, a, d, hv, hle, hnew⟩ := ih _ e he
    exact ⟨⟨g', List.mem_cons_of_mem g hg', hkey⟩, a, d, hv, Nat.le_trans hfirst.size_le hle, hnew⟩

theorem isLibrary_store (graphs : List (String × List (Key × Tree))) (h : Heap)
    (hkeys : ∀ g ∈ graphs, g.1 ≠ "graphs") :
    ∃ d, (h.store (.ofGraphs graphs)).2.IsLibrary (h.store (.ofGraphs graphs)).1 d := by
  have hroot := (get_build_map (graphs.map fun g => (.text g.1, .map g.2)) [] h).2
  have hext := extends_buildEntries (graphs.map fun g => (.text g.1, .map g.2)) [h.size] h.reserve.2
  have hnew := Dict.forall_ofList (P := fun k => ∃ g ∈ graphs, k = Key.text g.1)
    (Q := h.reserve.2.NewMap _) (newMap_of_buildEntries graphs [h.size] h.reserve.2)
  refine ⟨_, map?_eq_some.2 ⟨_, rfl, hroot⟩, Dict.distinct_ofList _, fun e he => ?_, fun e he => ?_⟩
  · obtain ⟨⟨g, hg, hkey⟩, -⟩ := hnew e he
    exact ⟨g.1, hkeys g hg, hkey⟩
  · obtain ⟨-, a, content, hv, hle, hlt, hget⟩ := hnew e he
    have hne : h.size ≠ a := by
      rw [size_reserve] at hle
      exact Nat.ne_of_lt hle
    refine ⟨content, map?_eq_some.2 ⟨a, hv, ?_⟩⟩
    simp only [store, Tree.ofGraphs, build, address_reserve,
      get_set _ _ _ _ (size_lt_of_reserve hext), if_neg hne]
    exact hget

end Heap

/-! ### Both run alike -/

namespace Store

/-- The value is in the configuration of an instruction, of a function of the store or of those that
are run with it, or it is an argument. -/
inductive Gives (st : Store) (instructions : List Instruction) (args : List Value) : Value → Prop
  | config {key k : String} {graph : Graph} {i : Instruction} {v : Value}
      (hg : st.get? key = some graph) (hcallable : graph.isCallable)
      (hi : i ∈ graph.instructions) (hv : (k, v) ∈ i.config.entries) : Gives st instructions args v
  | own {k : String} {i : Instruction} {v : Value} (hi : i ∈ instructions)
      (hv : (k, v) ∈ i.config.entries) : Gives st instructions args v
  | argument {v : Value} (hv : v ∈ args) : Gives st instructions args v

variable {d : Dict Key Value} {functionPrefix : String} {st : Store}

/-- The graphs of a store come from the data it was made from. -/
theorem made_of_ofValue (hd : h.IsLibrary v d) (hstore : ofValue h v functionPrefix = .ok st) :
    List.Forall₂ (Made h) d.entries st.graphs.entries := by
  have hplain : d.get? (.text "graphs") = none := by
    refine Option.map_eq_none_iff.2 (List.find?_eq_none.2 fun e he hsame => ?_)
    obtain ⟨s, hne, hkey⟩ := hd.keys e he
    rw [hkey] at hsame
    exact hne (eq_of_beq (a := s) hsame)
  unfold ofValue at hstore
  rw [hd.map] at hstore
  dsimp only at hstore
  rw [hplain, Option.getD_none, hd.map] at hstore
  obtain ⟨graphs, hgraphs, hstore⟩ := Serial.exists_of_bind hstore
  cases hstore
  have hmade := made_of_checkGraphs (fun e he => by
    obtain ⟨s, -, hkey⟩ := hd.keys e he
    obtain ⟨content, hcontent⟩ := hd.maps e he
    exact ⟨s, content, hkey, hcontent⟩) hgraphs
  rwa [Dict.entries_ofList (distinct_of_made hmade hd.distinct)]

/-- A store finds the graphs that are made from the data it was made from. -/
theorem resolve_of_ofValue (hd : h.IsLibrary v d) (hstore : ofValue h v functionPrefix = .ok st)
    (settings : Settings) (g : Heap) (key : String) :
    (st.library settings).resolve g key =
      (⟨some (.ofData v), settings⟩ : Library).resolve h key := by
  simp only [Library.resolve, library, lookup, get?, Dict.get?, GraphLookup.ofData, hd.map,
    Option.bind_some]
  obtain ⟨hnone, hnone'⟩ | ⟨w, graph, hfind, hfind', hgraph⟩ :=
    find?_of_made (made_of_ofValue hd hstore) key
  · simp [hnone, hnone']
  · simp only [hfind, hfind', hgraph, Option.map_some]
    rfl

theorem ofValue_of_get? (hd : h.IsLibrary v d) (hstore : ofValue h v functionPrefix = .ok st)
    {key : String} {graph : Graph} (hg : st.get? key = some graph) :
    ∃ w, d.get? (.text key) = some w ∧ Graph.ofValue h w = .ok (.valid graph) := by
  obtain ⟨-, hnone⟩ | ⟨w, found, hfind, hfind', hgraph⟩ :=
    find?_of_made (made_of_ofValue hd hstore) key
  · simp [get?, Dict.get?, hnone] at hg
  · obtain rfl : found = graph := by simpa [get?, Dict.get?, hfind'] using hg
    exact ⟨w, by simp [Dict.get?, hfind], Library.ofValue_of_graphOfData hgraph⟩

/-- Data that is stored as a tree, with its tables inside themselves only where they have the same
place, is apart from scripts whose instructions come from the same graphs or were there before. -/
theorem apart_store (hh : h.Closed) {graphs : List (String × List (Key × Tree))}
    (hkeys : ∀ g ∈ graphs, g.1 ≠ "graphs")
    (hfits : (Tree.ofGraphs graphs).fits .library [] = true)
    (hstore : ofValue (h.store (.ofGraphs graphs)).2 (h.store (.ofGraphs graphs)).1
      functionPrefix = .ok st)
    {instructions : List Instruction}
    (hi : ∀ i ∈ instructions,
      i.Within h ∨ ∃ key graph, st.get? key = some graph ∧ i ∈ graph.instructions)
    {args : List Value} (hargs : ∀ v ∈ args, v.Within h) :
    (h.store (.ofGraphs graphs)).2.Apart (h.store (.ofGraphs graphs)).1
      (st.Gives instructions args) := by
  obtain ⟨hs, hdata⟩ := Heap.sorted_store hh (.ofGraphs graphs) .library hfits
  obtain ⟨d, hd⟩ := Heap.isLibrary_store graphs h hkeys
  have hbefore {v : Value} (hv : v.Within h) :
      v.At ((Tree.ofGraphs graphs).placesFrom .library h.size) .script := by
    rintro a rfl
    exact if_neg (Nat.not_le.2 hv)
  have hstored {key : String} {graph : Graph} (hg : st.get? key = some graph) :
      ∀ i ∈ graph.instructions, ∀ e ∈ i.config.entries,
        e.2.At ((Tree.ofGraphs graphs).placesFrom .library h.size) .script := by
    obtain ⟨w, hw, hgraph⟩ := ofValue_of_get? hd hstore hg
    exact Graph.at_script_of_ofValue hs (hs.get? hdata hd.map hw) hgraph
  refine hs.apart hdata fun v hv => ?_
  cases hv with
  | config hg _ hmem he => exact hstored hg _ hmem _ he
  | own hmem he =>
    obtain hold | ⟨_, _, hg, hmem⟩ := hi _ hmem
    · exact hbefore (hold _ he)
    · exact hstored hg _ hmem _ he
  | argument hv => exact hbefore (hargs _ hv)

end Store

namespace Library

/-- Looking graphs up as data, and making them at every call, gives the same run as looking them up in
the store that was made from the data once: the same outcome, with all that the run logs, binds and
returns, in the same heap, and the same notices. That goes for all data that the store accepts, also
if scripts change the tables which stand as values in the configurations of the graphs, and whatever
tables of the data are shared, as long as no table is both part of what makes up the graphs and within
reach of scripts. -/
theorem lookups_agree (hh : h.Closed) (hdata : data.Within h) {d : Dict Key Value}
    (hd : h.IsLibrary data d) {functionPrefix : String} {st : Store}
    (hstore : Store.ofValue h data functionPrefix = .ok st) (settings : Settings)
    {instructions : List Instruction} {args : List Value}
    (hapart : h.Apart data (st.Gives instructions args)) (functionScope : Bool)
    (cancelAfter : Option Nat) (parameters : List Value) (notices : Array Diagnostic) :
    let s := (⟨some (.ofData data), settings⟩ : Library).setup instructions functionScope cancelAfter
    let s' := (st.library settings).setup instructions functionScope cancelAfter
    s.runNamed parameters args (s.start h notices) =
      s'.runNamed parameters args (s'.start h notices) := by
  have hresolve := Store.resolve_of_ofValue hd hstore settings
  let held := h.Reach (st.Gives instructions args)
  have hgiven {v : Value} (hv : st.Gives instructions args v) : v.Among held := by
    rintro a rfl
    exact .inr (.given hv)
  -- Whatever scripts have done, the data is read as it was at the start.
  have hkept {g : Heap} (hg : h.Preserves held g) (key : String) :
      (⟨some (.ofData data), settings⟩ : Library).resolve g key =
        (⟨some (.ofData data), settings⟩ : Library).resolve h key := by
    refine resolve_same (fun p v hv => ?_) settings key
    rintro a rfl
    exact hg.kept a (hapart.not_reach hh hdata hv)
  have hresolves : (⟨some (.ofData data), settings⟩ : Library).Resolves (.scripts held h) := by
    intro g key graph hg hgraph i hi e he
    rw [hkept hg, ← hresolve g] at hgraph
    obtain ⟨hget, hcallable⟩ := Store.resolve_eq_ok_iff.1 hgraph
    exact hgiven (.config hget hcallable hi he)
  have hsettings : (st.library settings).settings = settings := rfl
  refine runNamed_alike (Realm.writable_scripts held h) hresolves hsettings (fun g key hg => ?_)
    (fun i hi e he => hgiven (.own hi he)) (fun v hv => hgiven (.argument hv))
    (h.preserves_reach _) functionScope cancelAfter parameters notices
  rw [hkept hg, hresolve]

/-- A function that adds a number to the array that stands in its configuration, and returns it. -/
def growing : List (String × List (Key × Tree)) :=
  [("func:f",
    [(.text "parameters", .list []),
     (.text "nodes", .list
       [.object [("id", .text "createTable"), ("config", .object
          [("variableName", .text "t"), ("tableType", .text "array"),
           ("initialValue", .list [])])],
        .object [("id", .text "insertIntoTable"), ("config", .object
          [("tableVariable", .text "t"), ("valueSource", .text "1")])],
        .object [("id", .text "return"), ("useVariableForResult", .bool true),
          ("returnVariable", .text "t")]])])]

def growingRun (l : Library) : RunResult :=
  let s := l.setup [Setup.callOfF, Setup.callOfF] false
  s.runFrom (s.start (Heap.store {} (.ofGraphs growing)).2 #[])

/-- Called twice, the function finds what it added before in the array, whichever way it is looked
up. -/
theorem growing_agree :
    ∃ st, Store.ofValue (Heap.store {} (.ofGraphs growing)).2
        (Heap.store {} (.ofGraphs growing)).1 = .ok st ∧
      let r := growingRun ⟨some (.ofData (Heap.store {} (.ofGraphs growing)).1), {}⟩
      r = growingRun (st.library {}) ∧
      r.context.heap.array? (r.context.getVariable "r" .nil) = some [.int 1, .int 1] := by
  have hempty : Heap.Closed {} := ⟨by decide, by decide⟩
  have hclosed : (Heap.store {} (.ofGraphs growing)).2.Closed := ⟨by decide, by decide +kernel⟩
  have hwithin : ∀ i ∈ [Setup.callOfF, Setup.callOfF], i.Within {} := by decide +kernel
  have hkeys : ∀ g ∈ growing, g.1 ≠ "graphs" := by decide
  have hfits : (Tree.ofGraphs growing).fits .library [] = true :=
    Tree.fits_of_isFinite _ _ _ (by decide +kernel)
  obtain ⟨d, hd⟩ := Heap.isLibrary_store growing {} hkeys
  have hok : (Store.ofValue (Heap.store {} (.ofGraphs growing)).2
      (Heap.store {} (.ofGraphs growing)).1).isOk = true := by decide +kernel
  cases hst : Store.ofValue (Heap.store {} (.ofGraphs growing)).2
      (Heap.store {} (.ofGraphs growing)).1 with
  | error e =>
    rw [hst] at hok
    cases hok
  | ok st =>
    have hapart := Store.apart_store hempty hkeys hfits hst
      (fun i hi => .inl (hwithin i hi)) (List.forall_mem_nil _)
    have hruns := lookups_agree hclosed (by decide +kernel) hd hst {} hapart false none [] #[]
    simp only [Setup.runNamed_apply] at hruns
    exact ⟨st, rfl, (EStateM.Result.ok.inj hruns).1, by decide +kernel⟩

/-- A function that sets a field of a table, and then returns. The table stands as the initial value
in one node and is the configuration of the other. -/
def sharing : Heap where
  tables := #[
    .map (.ofList [(.text "func:f", .table 1)]),
    .map (.ofList [(.text "parameters", .table 2), (.text "nodes", .table 3)]),
    .array [],
    .array [.table 4, .table 6, .table 8],
    .map (.ofList [(.text "id", .text "createTable"), (.text "config", .table 5)]),
    .map (.ofList [(.text "variableName", .text "t"), (.text "tableType", .text "map"),
      (.text "initialValue", .table 9)]),
    .map (.ofList [(.text "id", .text "setTableValue"), (.text "config", .table 7)]),
    .map (.ofList [(.text "tableVariable", .text "t"), (.text "keyValue", .text "returnValue"),
      (.text "valueSource", .text "2")]),
    .map (.ofList [(.text "id", .text "return"), (.text "config", .table 9)]),
    .map (.ofList [(.text "returnValue", .text "1")])]

/-- What `f` returns when it is called for the second time. -/
def sharingSecond (l : Library) : Value :=
  let s := l.setup [Setup.callOfF, Setup.callOfF] false
  (s.runFrom (s.start sharing #[])).context.getVariable "r" .nil

/-- Looked up as data, the function has another configuration at its second call; in the store it
still has the one that it was made with. -/
theorem sharing_differs :
    sharing.Closed ∧ (∃ d, sharing.IsLibrary (.table 0) d) ∧
      ∃ st, Store.ofValue sharing (.table 0) = .ok st ∧
        sharingSecond ⟨some (.ofData (.table 0)), {}⟩ = .int 2 ∧
        sharingSecond (st.library {}) = .int 1 := by
  have hlibrary : sharing.IsLibrary (.table 0) (.ofList [(.text "func:f", .table 1)]) :=
    ⟨rfl, List.pairwise_singleton _ _, List.forall_mem_singleton.2 ⟨"func:f", by decide, rfl⟩,
      List.forall_mem_singleton.2 ⟨_, rfl⟩⟩
  have hsecond : (Store.ofValue sharing (.table 0)).toOption.map
      (fun st => sharingSecond (st.library {})) = some (.int 1) := by decide +kernel
  refine ⟨⟨by decide, by decide +kernel⟩, ⟨_, hlibrary⟩, ?_⟩
  cases hst : Store.ofValue sharing (.table 0) with
  | error e =>
    rw [hst] at hsecond
    cases hsecond
  | ok st =>
    rw [hst] at hsecond
    exact ⟨st, rfl, by decide +kernel, Option.some.inj hsecond⟩

end Library

end NodeScript
