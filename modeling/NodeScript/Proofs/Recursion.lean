import NodeScript.Proofs.CallStack
import NodeScript.Proofs.Cycles

/-!
Calls in a store whose check reports no recursive cycle. The keys of the runs under way are a walk
along the calls that the check sees, so none of them comes twice, and calls nest no deeper than there
are functions.
-/

namespace NodeScript

variable {S : Store} {settings : Settings} {key : String} {g : Graph} {a : Activation}
  {callers : List Activation} {i : Instruction} {q : Request} {f : Fault} {n : Nat}
  {σ σ' : CallState}

namespace Store

/-! ### What the check of a store sees -/

/-- Calls give their target in the spelling of editors. -/
def NamesByEditor (S : Store) : Prop :=
  ∀ key g, (key, g) ∈ S.graphs.entries → ∀ i ∈ g.instructions, i.control = some .call →
    i.config.get? "function_name" = none

theorem mem_callEdges {target : String} :
    (key, target) ∈ S.callEdges ↔ ∃ g, (key, g) ∈ S.graphs.entries ∧
      ∃ name ∈ g.calledFunctions, functionKey S.functionPrefix name = target := by
  simp only [callEdges, List.mem_eraseDups, List.mem_flatMap, List.mem_map, Prod.exists,
    Prod.mk.injEq]
  constructor
  · rintro ⟨_, g, hg, name, hname, rfl, rfl⟩
    exact ⟨g, hg, name, hname, rfl⟩
  · rintro ⟨g, hg, name, hname, rfl⟩
    exact ⟨key, g, hg, name, hname, rfl, rfl⟩

theorem mem_callVertices_of_edge {target : String} (h : (key, target) ∈ S.callEdges) :
    key ∈ S.callVertices := by
  obtain ⟨g, hg, -⟩ := mem_callEdges.1 h
  simp only [callVertices, List.mem_mergeSort, List.mem_eraseDups, List.mem_append]
  exact Or.inl (List.mem_map_of_mem hg)

/-- A store about which no recursive cycle is reported has none, as long as the search for cycles
misses none. -/
theorem acyclic_of_warnings {search : Cycle.Search} (hsearch : search.Complete)
    (h : ∀ cycle, s!"Recursive call cycle: {Cycle.line cycle}" ∉ S.warnings search) :
    Cycle.Acyclic S.callEdges := by
  refine hsearch.acyclic (Nat.succ_pos maxCyclesReported) (fun _ _ => mem_callVertices_of_edge) ?_
  by_contra hfound
  obtain ⟨cycle, others, hcycles⟩ := List.exists_cons_of_ne_nil hfound
  refine h cycle ?_
  unfold warnings
  dsimp only
  rw [hcycles]
  split
  · simp [maxCyclesReported]
  · simp [maxCyclesReported]

theorem mem_functions_of_resolve {h : Heap} (hr : (S.library settings).resolve h key = .ok g) :
    key ∈ S.functions := by
  obtain ⟨hg, hcallable⟩ := resolve_eq_ok_iff.1 hr
  exact List.mem_map.2 ⟨(key, g), by simp [mem_entries hg, hcallable], rfl⟩

/-! ### Chains of calls -/

/-- Every call that the runs of a store make is one that its check sees. -/
theorem mem_callEdges_of_request (hstart : settings.functionPrefix = S.functionPrefix)
    (hnames : S.NamesByEditor) (hg : S.get? a.key = some g)
    (hinstructions : a.instructions = g.instructions) (hi : a.instruction? = some i)
    (hq : (a.setup settings Library.unanswered).request? i a.machine = some q) :
    (a.key, q.key) ∈ S.callEdges := by
  obtain ⟨-, hcontrol, call, hcall, hrequest⟩ := Setup.request?_eq_some hq
  obtain ⟨name, args, c, hname, -, rfl⟩ := Call.request?_eq_some hrequest
  rw [Activation.instruction?, hinstructions] at hi
  obtain ⟨given, hgiven, hsame, hconfig⟩ := mem_of_getElem? hi
  rw [hconfig] at hcall
  have hgivenCall : given.control = some .call := hsame ▸ hcontrol
  refine mem_callEdges.2 ⟨g, mem_entries hg, name, ?_, by rw [← hstart]; rfl⟩
  refine (Graph.mem_calledFunctions hgiven
    (Instruction.names_of_decoder hgivenCall hcall hname)).resolve_right fun hplain => ?_
  simpa [hnames _ _ (mem_entries hg) given hgiven hgivenCall] using hplain.2.2.2

/-- The runs under way are of graphs of the store, each called by the next one. -/
structure Chained (S : Store) (runs : List Activation) : Prop where
  stored : ∀ a ∈ runs, ∃ g, S.get? a.key = some g ∧ a.instructions = g.instructions
  linked : (runs.map Activation.key).IsChain fun callee caller => (caller, callee) ∈ S.callEdges
  /-- All but the first run are of functions. -/
  callable : ∀ key ∈ (runs.map Activation.key).dropLast, key ∈ S.functions

theorem Chained.tail (h : S.Chained (a :: callers)) : S.Chained callers where
  stored b hb := h.stored b (List.mem_cons_of_mem a hb)
  linked := h.linked.tail
  callable key hkey := by
    refine h.callable key ?_
    cases callers with
    | nil => cases hkey
    | cons b callers => exact List.mem_cons_of_mem _ hkey

/-- The steps that a run takes make no difference. -/
theorem Chained.step (h : S.Chained (a :: callers)) (m : Machine) :
    S.Chained ({ a with machine := m } :: callers) where
  stored := by
    rintro b (_ | ⟨_, hb⟩)
    · exact h.stored a List.mem_cons_self
    · exact h.stored b (List.mem_cons_of_mem a hb)
  linked := h.linked
  callable := h.callable

theorem Chained.call (h : S.Chained (a :: callers)) {callee : Activation}
    (hstart : settings.functionPrefix = S.functionPrefix) (hnames : S.NamesByEditor)
    (hi : a.instruction? = some i)
    (hq : (a.setup settings Library.unanswered).request? i a.machine = some q)
    (hbegin : (S.library settings).begin? n q = .ok callee) :
    S.Chained (callee :: a :: callers) := by
  obtain ⟨-, g', hresolve, rfl⟩ := Library.begin?_eq_ok hbegin
  obtain ⟨g, hg, hinstructions⟩ := h.stored a List.mem_cons_self
  have hedge := mem_callEdges_of_request hstart hnames hg hinstructions hi hq
  refine ⟨?_, List.isChain_cons_cons.2 ⟨hedge, h.linked⟩, ?_⟩
  · rintro b (_ | ⟨_, hb⟩)
    · exact ⟨g', get?_of_resolve hresolve, rfl⟩
    · exact h.stored b hb
  · rintro key (_ | ⟨_, hkey⟩)
    · exact mem_functions_of_resolve hresolve
    · exact h.callable key hkey

theorem chained_move (hstart : settings.functionPrefix = S.functionPrefix)
    (hnames : S.NamesByEditor) (h : (S.library settings).move σ = some σ')
    (hσ : S.Chained σ.active) : S.Chained σ'.active := by
  cases Library.move_turns h with
  | ends a callers r => exact hσ.tail
  | steps a callers m _ _ => exact hσ.step m
  | calls callers _ hi hq hbegin => exact hσ.call hstart hnames hi hq hbegin
  | refuses callers _ _ _ _ => exact hσ
  | resumes x a callers m _ => exact hσ.step m
  | fails x a callers r => exact hσ.tail

/-- Where there are no cycles no key comes twice, and but for the first run there are no more runs
than functions. -/
theorem Chained.bounded {runs : List Activation} (h : S.Chained runs)
    (hacyclic : Cycle.Acyclic S.callEdges) :
    (runs.map Activation.key).Nodup ∧ runs.length ≤ S.functions.length + 1 := by
  have hnodup := hacyclic.nodup_of_isChain h.linked
  refine ⟨hnodup, ?_⟩
  have hlength := (hnodup.sublist (List.dropLast_sublist _)).length_le_of_subset h.callable
  simp only [List.length_dropLast, List.length_map] at hlength
  omega

theorem chained_opening (hg : S.get? key = some g) (functionScope : Bool)
    (cancelAfter : Option Nat) (parameters : List String) (args : List Value) (heap : Heap)
    (notices : Array Diagnostic) :
    S.Chained (Library.opening key g.instructions functionScope cancelAfter parameters args heap
      notices).active where
  stored := by
    rintro a (_ | ⟨_, ⟨⟩⟩)
    exact ⟨g, hg, rfl⟩
  linked := List.isChain_singleton _
  callable := by
    rintro key ⟨⟩

/-! ### Calls that are too deep -/

end Store

/-- A fault that is handed to a caller kept the call from being run that the caller stands at. -/
theorem Library.refused_of_moves {l : Library} (h : l.Moves n (.running a callers) σ)
    {waiting : List Activation} (hσ : σ = .answering (.error f) waiting) :
    ∃ b rest i q, waiting = b :: rest ∧ b.instruction? = some i ∧
      (b.setup l.settings unanswered).request? i b.machine = some q ∧
      l.begin? b.depth q = .error f := by
  let Refused : CallState → Prop := fun σ => ∀ f waiting, σ = .answering (.error f) waiting →
    ∃ b rest i q, waiting = b :: rest ∧ b.instruction? = some i ∧
      (b.setup l.settings unanswered).request? i b.machine = some q ∧ l.begin? b.depth q = .error f
  have hkept : Refused σ := by
    refine h.keeps (fun σ σ' hmove _ => ?_) (by rintro f waiting ⟨⟩)
    cases move_turns hmove with
    | @refuses b i q f callers _ hi hq hbegin =>
      rintro _ _ ⟨⟩
      exact ⟨b, callers, i, q, rfl, hi, hq, hbegin⟩
    | _ => rintro f waiting ⟨⟩
  exact hkept f waiting hσ

namespace Store

theorem begin?_tooDeep {limit : Nat} {target : String}
    (h : (S.library settings).begin? n q = .error (.call (.tooDeep limit target))) :
    settings.maxCallDepth < n + 1 ∧ q.key = target := by
  unfold Library.begin? at h
  split at h
  · next hdepth =>
    cases h
    exact ⟨hdepth, rfl⟩
  · exfalso
    simp only [Library.resolve, library, lookup, bind, Except.bind, pure, Except.pure] at h
    cases hg : S.get? q.key with
    | none => simp [hg] at h
    | some g =>
      simp only [hg, Option.map_some] at h
      cases hcallable : g.isCallable with
      | false => simp [hcallable] at h
      | true =>
        simp only [hcallable, if_true] at h
        split at h <;> cases h

/-- A call is too deep only where all functions are under way already. Then its target is none. -/
theorem Chained.tooDeep {waiting : List Activation} (h : S.Chained (a :: waiting))
    (hstart : settings.functionPrefix = S.functionPrefix) (hnames : S.NamesByEditor)
    (hacyclic : Cycle.Acyclic S.callEdges) (hdepth : a.depth = waiting.length)
    (hlimit : settings.maxCallDepth ≤ a.depth)
    (hfunctions : S.functions.length ≤ settings.maxCallDepth) (hi : a.instruction? = some i)
    (hq : (a.setup settings Library.unanswered).request? i a.machine = some q) :
    settings.maxCallDepth = S.functions.length ∧ q.key ∉ S.functions := by
  have hlength := (h.bounded hacyclic).2
  rw [List.length_cons, ← hdepth] at hlength
  refine ⟨by omega, fun htarget => ?_⟩
  obtain ⟨g, hg, hinstructions⟩ := h.stored a List.mem_cons_self
  have hedge := mem_callEdges_of_request hstart hnames hg hinstructions hi hq
  have hnodup : (q.key :: (a :: waiting).map Activation.key).Nodup :=
    hacyclic.nodup_of_isChain (List.isChain_cons_cons.2 ⟨hedge, h.linked⟩)
  have hsub : q.key :: ((a :: waiting).map Activation.key).dropLast ⊆ S.functions :=
    List.cons_subset.2 ⟨htarget, h.callable⟩
  have hcount := (hnodup.sublist ((List.dropLast_sublist _).cons_cons _)).length_le_of_subset hsub
  simp only [List.length_cons, List.length_dropLast, List.length_map] at hcount
  omega

/-- In a store about which no recursive cycle is reported, by a search for cycles that misses none,
and whose calls give their targets in the spelling of editors, no key comes twice among the runs under
way, from the run of any of its graphs on. Calls nest no deeper than there are functions. With so much
depth allowed a call is too deep only if its target is no function of the store, and then only if not
more depth is allowed than that. -/
theorem calls_bounded_of_no_cycle {S : Store} {settings : Settings}
    (hstart : settings.functionPrefix = S.functionPrefix) (hnames : S.NamesByEditor)
    {search : Cycle.Search} (hsearch : search.Complete)
    (hwarnings : ∀ cycle, s!"Recursive call cycle: {Cycle.line cycle}" ∉ S.warnings search)
    {key : String} {g : Graph} (hg : S.get? key = some g) (functionScope : Bool)
    (cancelAfter : Option Nat) (parameters : List String) (args : List Value) (heap : Heap)
    (notices : Array Diagnostic) {n : Nat} {σ : CallState}
    (hmoves : (S.library settings).Moves n (Library.opening key g.instructions functionScope
      cancelAfter parameters args heap notices) σ) :
    (σ.active.map Activation.key).Nodup ∧
    (∀ a ∈ σ.active, a.depth ≤ S.functions.length) ∧
    (S.functions.length ≤ settings.maxCallDepth → ∀ limit target callers,
      σ = .answering (.error (.call (.tooDeep limit target))) callers →
      settings.maxCallDepth = S.functions.length ∧ target ∉ S.functions) := by
  have hacyclic := acyclic_of_warnings hsearch hwarnings
  have hnested := hmoves.keeps (fun _ _ => Library.nested_move) (Library.nested_opening
    (S.library settings) key g.instructions functionScope cancelAfter parameters args heap notices)
  have hchained : S.Chained σ.active :=
    hmoves.keeps (P := fun σ => S.Chained σ.active) (fun _ _ => chained_move hstart hnames)
      (chained_opening hg functionScope cancelAfter parameters args heap notices)
  obtain ⟨hnodup, hlength⟩ := hchained.bounded hacyclic
  refine ⟨hnodup, fun a ha => ?_, fun hfunctions limit target callers hσ => ?_⟩
  · have hdepth : a.depth ∈ (List.range σ.active.length).reverse :=
      hnested.depths ▸ List.mem_map_of_mem ha
    rw [List.mem_reverse, List.mem_range] at hdepth
    omega
  · obtain ⟨a, waiting, i, q, rfl, hi, hq, hbegin⟩ := Library.refused_of_moves hmoves hσ
    obtain ⟨hdeep, rfl⟩ := begin?_tooDeep hbegin
    subst hσ
    have hdepth := ((Library.depths_cons_iff a waiting).1 hnested.depths).1
    exact hchained.tooDeep hstart hnames hacyclic hdepth (Nat.le_of_lt_succ hdeep) hfunctions hi hq

/-- A graph that calls a function which calls what is not there. -/
def relay : Store :=
  { graphs := .ofList [("entry", { instructions := [callBy "functionName" "f"] }),
      ("func:f", { instructions := [callBy "functionName" "nope"], parameters := some [] })] }

theorem relay_namesByEditor : relay.NamesByEditor := by
  have hnone : ∀ entry ∈ relay.graphs.entries, ∀ i ∈ entry.2.instructions,
      i.config.get? "function_name" = none := by
    decide
  intro key g hg i hi _
  exact hnone (key, g) hg i hi

theorem relay_callVertices : relay.callVertices = ["entry", "func:f", "func:nope"] := by
  have hmentioned : (relay.keys ++ relay.callEdges.map Prod.snd).eraseDups =
      ["entry", "func:f", "func:nope"] := by
    decide +kernel
  unfold callVertices
  dsimp only
  rw [hmentioned]
  exact List.mergeSort_of_pairwise (by decide +kernel)

theorem relay_warnings : relay.warnings = [] := by
  have hnone : Cycle.all relay.callVertices relay.callEdges (maxCyclesReported + 1) = [] := by
    rw [relay_callVertices]
    decide +kernel
  simp [warnings, Cycle.search, hnone]

/-- The machine at the start of a run of the graph. -/
def relayOpening : CallState :=
  Library.opening "entry" [callBy "functionName" "f"] false none [] [] {} #[]

/-- When the call that the function makes is refused, the two runs that wait have keys of their own
and are no deeper than there are functions. -/
theorem relay_bounded :
    ∃ callers, (relay.library { maxCallDepth := 1 }).Moves 2 relayOpening
        (.answering (.error (.call (.tooDeep 1 "func:nope"))) callers) ∧
      callers.map Activation.key = ["func:f", "entry"] ∧ (callers.map Activation.key).Nodup ∧
      (∀ a ∈ callers, a.depth ≤ relay.functions.length) ∧ "func:nope" ∉ relay.functions := by
  have hmoves : (relay.library { maxCallDepth := 1 }).Moves 2 relayOpening
      (.answering (.error (.call (.tooDeep 1 "func:nope"))) _) := .more rfl (.more rfl (.refl _))
  obtain ⟨hnodup, hdepth, htooDeep⟩ := calls_bounded_of_no_cycle (S := relay) rfl
    relay_namesByEditor Cycle.complete_search (by simp [relay_warnings])
    (show relay.get? "entry" = some _ from rfl) false none [] [] {} #[] hmoves
  exact ⟨_, hmoves, rfl, hnodup, hdepth, (htooDeep (by decide) _ _ _ rfl).2⟩

/-- No recursive cycle is reported, and as much depth is allowed as there are functions, and yet a
call is too deep: the depth is looked at before the target is. -/
theorem relay_tooDeep :
    relay.NamesByEditor ∧ relay.warnings = [] ∧ relay.functions.length = 1 ∧
    ∃ callers, (relay.library { maxCallDepth := 1 }).Moves 2 relayOpening
      (.answering (.error (.call (.tooDeep 1 "func:nope"))) callers) :=
  ⟨relay_namesByEditor, relay_warnings, by decide, _, .more rfl (.more rfl (.refl _))⟩

end Store

end NodeScript
