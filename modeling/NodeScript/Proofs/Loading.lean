import NodeScript.Proofs.Sameness
import NodeScript.Proofs.Showing
import NodeScript.Workspace

/-!
Settings from files. They are accepted exactly if every key is the name of a setting and every value
is of the kind that its name asks for, and what is absent takes its default. Everything else is
refused by a complaint about the settings, unless the complaint cannot be worded: keys that are no
texts cannot be listed, and there are values that cannot be shown.
-/

namespace NodeScript

/-- A positive integer; truth values are none. -/
def Value.isPositive : Value → Bool
  | .number (.int n) => 1 ≤ n
  | _ => false

/-- A stored tree as a setting sees it: integers, texts and truth values are themselves, and
everything else is none of them. -/
structure Tree.StandsAs (t : Tree) (v : Value) : Prop where
  int (n : Int) : v = .int n ↔ t = .int n
  text (s : String) : v = .text s ↔ t = .text s
  bool (b : Bool) : v = .bool b ↔ t = .bool b

/-- Nil, or a table around the tree where there is none. -/
def Tree.isNothing : Tree → Bool
  | .nil | .again .. => true
  | _ => false

namespace Heap

theorem store_standsAs (t : Tree) (h : Heap) : t.StandsAs (h.store t).1 := by
  cases t with
  | number n =>
    have hmark (m : Int) : (h.mark n).1 = .int m ↔ n = .int m := by
      unfold mark
      split
      · next hn => cases n <;> simp_all [Number.isUnmarked]
      · rfl
    constructor
    · simpa [store, build, Value.int, Tree.int] using hmark
    · simp [store, build]
    · simp [store, build]
  | _ => constructor <;> simp [store, build, Value.int, Tree.int]

theorem store_eq_nil_iff {t : Tree} {h : Heap} : (h.store t).1 = .nil ↔ t.isNothing := by
  cases t <;> simp [store, build, Tree.isNothing]

end Heap

namespace Settings

variable {h : Heap} {d : Dict Key Value} {s : Settings}

/-! ### The check -/

/-- The settings that a dictionary gives: all its keys are names of settings, and each setting is
what stands under its name, or the default if nothing does. -/
structure Given (d : Dict Key Value) (s : Settings) : Prop where
  known : ∀ k ∈ d.keys, ∃ name ∈ names, k = .text name
  maxIterations : (d.fields "max_iterations").getD (.int 10000) = .int s.maxIterations
  maxIterations_pos : 1 ≤ s.maxIterations
  maxCallDepth : (d.fields "max_call_depth").getD (.int 64) = .int s.maxCallDepth
  maxCallDepth_pos : 1 ≤ s.maxCallDepth
  functionPrefix :
    (d.fields "function_prefix").getD (.text defaultFunctionPrefix) = .text s.functionPrefix
  warnUnknownTypes : (d.fields "warn_unknown_types").getD (.bool true) = .bool s.warnUnknownTypes

/-- The value that a complaint about the limits shows: the first that is given and not positive. -/
def refusedLimit? (d : Dict Key Value) : Option Value :=
  ((d.fields "max_iterations").filter (!·.isPositive)).or
    ((d.fields "max_call_depth").filter (!·.isPositive))

theorem isKnown_iff {k : Key} : isKnown k = true ↔ ∃ name ∈ names, k = .text name := by
  cases k <;> simp [isKnown]

theorem text?_eq_none_iff {k : Key} : text? k = none ↔ ∀ name, k ≠ .text name := by
  cases k <;> simp [text?]

/-- Unknown keys are listed unless one of them is no text. -/
theorem unknownKeysError_eq_fault_iff {unknown : List Key} :
    (∃ f, unknownKeysError h unknown = .fault f) ↔ ∃ k ∈ unknown, ∀ name, k ≠ .text name := by
  have hothers : (∃ k ∈ unknown, ∀ name, k ≠ .text name) ↔
      unknown.filter (text? · |>.isNone) ≠ [] := by
    simp [List.filter_eq_nil_iff, text?_eq_none_iff]
  rw [hothers]
  unfold unknownKeysError
  dsimp only
  split
  · next hnil => simp [hnil]
  · next hcons =>
    rw [hcons]
    refine iff_of_true ?_ (List.cons_ne_nil _ _)
    split
    · exact ⟨_, rfl⟩
    · exact ⟨_, rfl⟩
  · next hcons _ =>
    rw [hcons]
    exact iff_of_true ⟨_, rfl⟩ (List.cons_ne_nil _ _)

theorem refuse_cases (h : Heap) (name : String) (v : Value) :
    ∃ e, positive.refuse h name v = .error e ∧
      ((∃ f, e = .fault f) ↔ ¬ (h.tree v).Showable nestingLimit) := by
  rw [← Tree.display_isOk_iff]
  unfold positive.refuse Heap.display
  cases (h.tree v).display nestingLimit with
  | ok shown => exact ⟨_, rfl, by simp⟩
  | error f => exact ⟨_, rfl, by simp⟩

/-- A limit is what is given or its default, or it is refused, with a complaint if the given value
can be shown. -/
theorem positive_cases (h : Heap) (name : String) (absent : Nat) (habsent : 1 ≤ absent)
    (given : Option Value) :
    (given.filter (!·.isPositive) = none ∧ ∃ n : Nat, 1 ≤ n ∧ given.getD (.int absent) = .int n ∧
        positive h name absent given = .ok n) ∨
      ∃ v e, given.filter (!·.isPositive) = some v ∧ positive h name absent given = .error e ∧
        ((∃ f, e = .fault f) ↔ ¬ (h.tree v).Showable nestingLimit) := by
  unfold positive
  split
  · exact .inl ⟨rfl, absent, habsent, rfl, rfl⟩
  · next n =>
    by_cases hn : 1 ≤ n
    · rw [if_pos hn]
      have hnat : (n.toNat : Int) = n := Int.toNat_of_nonneg (by omega)
      exact .inl ⟨by simp [Value.isPositive, hn], n.toNat, by omega, by simp [hnat, Value.int], rfl⟩
    · rw [if_neg hn]
      obtain ⟨e, he, hfault⟩ := refuse_cases h name (.int n)
      exact .inr ⟨_, e, by simp [Value.isPositive, hn, Value.int], he, hfault⟩
  · next v hv =>
    obtain ⟨e, he, hfault⟩ := refuse_cases h name v
    have hpositive : v.isPositive = false := by
      unfold Value.isPositive
      split
      · next n => exact absurd rfl (hv n)
      · rfl
    exact .inr ⟨v, e, by simp [hpositive], he, hfault⟩

theorem filter_of_getD {given : Option Value} {absent n : Nat}
    (hgiven : given.getD (.int absent) = .int n) (hn : 1 ≤ n) :
    given.filter (!·.isPositive) = none := by
  cases given with
  | none => rfl
  | some v =>
    obtain rfl : v = .int n := hgiven
    simp [Value.isPositive, Value.int, hn]

theorem Given.refusedLimit?_eq (hs : s.Given d) : refusedLimit? d = none := by
  simp [refusedLimit?, filter_of_getD hs.maxIterations hs.maxIterations_pos,
    filter_of_getD hs.maxCallDepth hs.maxCallDepth_pos]

/-- The two settings that are no limits, after the limits. -/
def conventions (d : Dict Key Value) (maxIterations maxCallDepth : Nat) :
    Except SettingsError Settings :=
  match (d.fields "function_prefix").getD (.text defaultFunctionPrefix),
      (d.fields "warn_unknown_types").getD (.bool true) with
  | .text functionPrefix, .bool warnUnknownTypes =>
    .ok { maxIterations, maxCallDepth, functionPrefix, warnUnknownTypes }
  | .text _, _ => .error .flagNotBool
  | _, _ => .error .prefixNotText

theorem ofDict_of_unknown (hknown : ¬ ∀ k ∈ d.keys, isKnown k) :
    ofDict h d = .error (unknownKeysError h (d.keys.filter (!isKnown ·))) := by
  have hempty : (d.keys.filter (!isKnown ·)).isEmpty = false := by
    simpa [List.isEmpty_eq_false_iff_exists_mem] using hknown
  simp [ofDict, hempty]

theorem ofDict_of_known (hknown : ∀ k ∈ d.keys, isKnown k) :
    ofDict h d = (positive h "max_iterations" 10000 (d.fields "max_iterations")).bind fun m =>
      (positive h "max_call_depth" 64 (d.fields "max_call_depth")).bind (conventions d m) := by
  have hempty : (d.keys.filter (!isKnown ·)).isEmpty = true := by
    simpa [List.isEmpty_iff] using hknown
  unfold ofDict
  simp only [hempty, Bool.not_true, Bool.false_eq_true, if_false]
  refine congrArg _ (funext fun m => congrArg _ (funext fun n => ?_))
  unfold conventions
  cases d.fields "function_prefix" with
  | none =>
    cases d.fields "warn_unknown_types" with
    | none => rfl
    | some flag => cases flag <;> rfl
  | some start =>
    cases start with
    | text start =>
      cases d.fields "warn_unknown_types" with
      | none => rfl
      | some flag => cases flag <;> rfl
    | _ => rfl

theorem conventions_eq_ok_iff {m n : Nat} :
    conventions d m n = .ok s ↔ s.maxIterations = m ∧ s.maxCallDepth = n ∧
      (d.fields "function_prefix").getD (.text defaultFunctionPrefix) = .text s.functionPrefix ∧
      (d.fields "warn_unknown_types").getD (.bool true) = .bool s.warnUnknownTypes := by
  obtain ⟨maxIterations, maxCallDepth, functionPrefix, warnUnknownTypes⟩ := s
  unfold conventions
  split
  · next hstart hflag => simp [hstart, hflag, eq_comm]
  · next hflag => exact iff_of_false nofun fun hs => hflag _ hs.2.2.2
  · next hstart _ => exact iff_of_false nofun fun hs => hstart _ hs.2.2.1

theorem conventions_ne_fault (d : Dict Key Value) (m n : Nat) (f : Fault) :
    conventions d m n ≠ .error (.fault f) := by
  unfold conventions
  split <;> simp

/-- Among known keys the limits are looked at first, in their order. -/
theorem ofDict_cases (h : Heap) (hknown : ∀ k ∈ d.keys, isKnown k) :
    (refusedLimit? d = none ∧ ∃ m n : Nat, 1 ≤ m ∧ 1 ≤ n ∧
        (d.fields "max_iterations").getD (.int 10000) = .int m ∧
        (d.fields "max_call_depth").getD (.int 64) = .int n ∧ ofDict h d = conventions d m n) ∨
      ∃ v e, refusedLimit? d = some v ∧ ofDict h d = .error e ∧
        ((∃ f, e = .fault f) ↔ ¬ (h.tree v).Showable nestingLimit) := by
  unfold refusedLimit?
  rw [ofDict_of_known hknown]
  obtain ⟨hnone, m, hm, hgiven, hok⟩ | ⟨v, e, hsome, herror, hfault⟩ :=
    positive_cases h "max_iterations" 10000 (by decide) (d.fields "max_iterations")
  · rw [hnone, hok]
    obtain ⟨hnone', n, hn, hgiven', hok'⟩ | ⟨v, e, hsome, herror, hfault⟩ :=
      positive_cases h "max_call_depth" 64 (by decide) (d.fields "max_call_depth")
    · exact .inl ⟨hnone', m, n, hm, hn, hgiven, hgiven', by rw [hok']; rfl⟩
    · exact .inr ⟨v, e, hsome, by rw [herror]; rfl, hfault⟩
  · exact .inr ⟨v, e, by rw [hsome]; rfl, by rw [herror]; rfl, hfault⟩

/-- A dictionary is accepted exactly if it gives settings, and then as those. -/
theorem ofDict_eq_ok_iff : ofDict h d = .ok s ↔ s.Given d := by
  by_cases hknown : ∀ k ∈ d.keys, isKnown k
  · obtain ⟨-, m, n, hm, hn, hgiven, hgiven', heq⟩ | ⟨v, e, hsome, heq, -⟩ := ofDict_cases h hknown
    · rw [heq, conventions_eq_ok_iff]
      constructor
      · rintro ⟨rfl, rfl, hstart, hflag⟩
        exact ⟨fun k hk => isKnown_iff.1 (hknown k hk), hgiven, hm, hgiven', hn, hstart, hflag⟩
      · intro hs
        have hlimit := hs.maxIterations.symm.trans hgiven
        have hdepth := hs.maxCallDepth.symm.trans hgiven'
        simp only [Value.int, Value.number.injEq, Number.int.injEq, Int.natCast_inj]
          at hlimit hdepth
        exact ⟨hlimit, hdepth, hs.functionPrefix, hs.warnUnknownTypes⟩
    · rw [heq]
      refine iff_of_false nofun fun hs => ?_
      rw [hs.refusedLimit?_eq] at hsome
      cases hsome
  · rw [ofDict_of_unknown hknown]
    exact iff_of_false nofun fun hs => hknown fun k hk => isKnown_iff.2 (hs.known k hk)

/-- A dictionary makes the check itself fail exactly if a key cannot be listed, or if all keys are
known and the first limit to be refused cannot be shown. -/
theorem ofDict_eq_fault_iff :
    (∃ f, ofDict h d = .error (.fault f)) ↔
      (∃ k ∈ d.keys, ∀ name, k ≠ .text name) ∨
      (∀ k ∈ d.keys, ∃ name ∈ names, k = .text name) ∧
        ∃ v, refusedLimit? d = some v ∧ ¬ (h.tree v).Showable nestingLimit := by
  simp only [← isKnown_iff]
  by_cases hknown : ∀ k ∈ d.keys, isKnown k
  · have htexts : ¬ ∃ k ∈ d.keys, ∀ name, k ≠ .text name := by
      rintro ⟨k, hk, hname⟩
      obtain ⟨name, -, rfl⟩ := isKnown_iff.1 (hknown k hk)
      exact hname name rfl
    rw [or_iff_right htexts, and_iff_right hknown]
    obtain ⟨hnone, m, n, -, -, -, -, heq⟩ | ⟨v, e, hsome, heq, hfault⟩ := ofDict_cases h hknown
    · simp [heq, hnone, conventions_ne_fault]
    · simpa [heq, hsome] using hfault
  · rw [ofDict_of_unknown hknown, or_iff_left fun hall => hknown hall.1]
    simp only [Except.error.injEq, unknownKeysError_eq_fault_iff, List.mem_filter,
      Bool.not_eq_true', ← Bool.not_eq_true, isKnown_iff]
    constructor
    · rintro ⟨k, ⟨hk, -⟩, hname⟩
      exact ⟨k, hk, hname⟩
    · rintro ⟨k, hk, hname⟩
      exact ⟨k, ⟨hk, fun ⟨name, _, heq⟩ => hname name heq⟩, hname⟩

/-! ### The file and the overrides -/

/-- The entries of the first file found; there are none without a file or in an empty one. -/
def found (w : Workspace) (locations : List Location) :
    Except SettingsError (Dict Key Value × Heap) :=
  match w.find? locations with
  | none => pure ({}, {})
  | some location =>
    match Yaml.load {} ((w.read? location).getD "") with
    | .error .malformed => .error (.unreadable location.text)
    | .error (.fault f) => .error (.fault f)
    | .ok (.nil, h) => pure ({}, h)
    | .ok (v, h) => do pure (← fileEntries h location.text v, h)

/-- One override: nil, and what has no meaning outside a table, overrides nothing. -/
def override : Dict Key Value × Heap → Key × Tree → Dict Key Value × Heap
  | (d, h), (k, t) => (if (h.store t).1 = .nil then d else d.insert k (h.store t).1, (h.store t).2)

/-- All overrides, one after the other. -/
def merge (entries : Dict Key Value) (h : Heap) (overrides : List (Key × Tree)) :
    Dict Key Value × Heap :=
  overrides.foldl override (entries, h)

/-- The overrides may as well be collected first. -/
theorem merge_insertAll (entries : Dict Key Value) (given : List (Key × Value)) (h : Heap)
    (overrides : List (Key × Tree)) :
    merge (entries.insertAll given) h overrides =
      match overrides.foldl
        (fun (given, h) (k, t) =>
          let (v, h) := Heap.store h t
          (if v = .nil then given else given ++ [(k, v)], h))
        (given, h) with
      | (given, h) => (entries.insertAll given, h) := by
  induction overrides generalizing given h with
  | nil => rfl
  | cons o os ih =>
    obtain ⟨k, t⟩ := o
    have hstep : override (entries.insertAll given, h) (k, t) =
        (entries.insertAll (if (h.store t).1 = .nil then given else given ++ [(k, (h.store t).1)]),
          (h.store t).2) := by
      by_cases hnil : (h.store t).1 = .nil
      · simp [override, hnil]
      · simp [override, hnil, Dict.insertAll]
    rw [merge, List.foldl_cons, hstep]
    exact ih _ _

theorem load_eq (w : Workspace) (locations : List Location) (overrides : List (Key × Tree)) :
    load w locations overrides = (found w locations).bind fun (entries, h) =>
      ofDict (merge entries h overrides).2 (merge entries h overrides).1 := by
  have hmerge (entries : Dict Key Value) (h : Heap) := merge_insertAll entries [] h overrides
  simp only [Dict.insertAll, List.foldl_nil] at hmerge
  simp only [hmerge]
  unfold load found
  cases w.find? locations with
  | none => rfl
  | some location =>
    dsimp only
    cases Yaml.load {} ((w.read? location).getD "") with
    | error e => cases e <;> rfl
    | ok read =>
      obtain ⟨v, h⟩ := read
      cases v with
      | nil => rfl
      | _ =>
        dsimp only
        cases fileEntries h location.text _ <;> rfl

/-- The last override of a key that is not nil. -/
def override? (overrides : List (Key × Tree)) (k : Key) : Option Tree :=
  (overrides.reverse.find? fun o => o.1 == k && !o.2.isNothing).map Prod.snd

/-- What stands under a key before and after the overrides: the last of them that is not nil, or
else what stood there. -/
def Overridden (overrides : List (Key × Tree)) (k : Key) (before after : Option Value) : Prop :=
  match override? overrides k with
  | some t => ∃ v, after = some v ∧ t.StandsAs v
  | none => after = before

theorem override?_cons (j : Key) (t : Tree) (overrides : List (Key × Tree)) (k : Key) :
    override? ((j, t) :: overrides) k =
      (override? overrides k).or (if j == k && !t.isNothing then some t else none) := by
  unfold override?
  rw [List.reverse_cons, List.find?_append, Option.map_or, List.find?_singleton]
  split <;> rfl

theorem get?_override (d : Dict Key Value) (h : Heap) (j : Key) (t : Tree) (k : Key) :
    (override (d, h) (j, t)).1.get? k =
      if j == k && !t.isNothing then some (h.store t).1 else d.get? k := by
  cases hnothing : t.isNothing with
  | true => simp [override, Heap.store_eq_nil_iff, hnothing]
  | false =>
    cases hj : j == k with
    | true => simp [override, Heap.store_eq_nil_iff, hnothing, Dict.get?_insert_of_same hj]
    | false => simp [override, Heap.store_eq_nil_iff, hnothing, Dict.get?_insert_of_not_same hj]

theorem overridden_merge (entries : Dict Key Value) (h : Heap) (overrides : List (Key × Tree))
    (k : Key) : Overridden overrides k (entries.get? k) ((merge entries h overrides).1.get? k) := by
  induction overrides generalizing entries h with
  | nil => rfl
  | cons o os ih =>
    obtain ⟨j, t⟩ := o
    have hrest := ih (override (entries, h) (j, t)).1 (override (entries, h) (j, t)).2
    unfold Overridden at hrest ⊢
    rw [override?_cons]
    cases hlast : override? os k with
    | some u =>
      rw [hlast] at hrest
      exact hrest
    | none =>
      simp only [hlast, get?_override] at hrest
      rw [Option.none_or]
      split at hrest
      · next hj =>
        rw [if_pos hj]
        exact ⟨_, hrest, Heap.store_standsAs t h⟩
      · next hj =>
        rw [if_neg hj]
        exact hrest

/-- Whatever the file holds and whatever overrides it, loading gives settings exactly if the merged
entries do, and then those. Everything else is refused with a complaint about the settings, with two
exceptions in which loading fails while it words the complaint: a key that is no text, which cannot
be listed among the unknown ones, and a refused limit that cannot be shown. -/
theorem load_accepts_exactly_given {w : Workspace} {locations : List Location}
    {entries : Dict Key Value} {h : Heap} (overrides : List (Key × Tree))
    (hfound : found w locations = .ok (entries, h)) :
    (∀ k, Overridden overrides k (entries.get? k) ((merge entries h overrides).1.get? k)) ∧
      (∀ s, load w locations overrides = .ok s ↔ s.Given (merge entries h overrides).1) ∧
      ((∃ f, load w locations overrides = .error (.fault f)) ↔
        (∃ k ∈ (merge entries h overrides).1.keys, ∀ name, k ≠ .text name) ∨
        (∀ k ∈ (merge entries h overrides).1.keys, ∃ name ∈ names, k = .text name) ∧
          ∃ v, refusedLimit? (merge entries h overrides).1 = some v ∧
            ¬ ((merge entries h overrides).2.tree v).Showable nestingLimit) := by
  have hload : load w locations overrides =
      ofDict (merge entries h overrides).2 (merge entries h overrides).1 := by
    rw [load_eq, hfound]
    rfl
  rw [hload]
  exact ⟨overridden_merge entries h overrides, fun s => ofDict_eq_ok_iff, ofDict_eq_fault_iff⟩

/-- A workspace with a settings file. -/
def configured (text : String) : Workspace where
  files := .ofList [(Location.settingsPath, text)]

/-- A file that sets two of the settings under a key of their own. -/
def nestedFile : Workspace := configured "engine: \x7bmax_iterations: 0x7, function_prefix: fn/\x7d"

theorem load_nestedFile :
    ∃ entries h, found nestedFile Location.defaults = .ok (entries, h) ∧
      Given (merge entries h [(.text "max_iterations", .int 3), (.text "max_call_depth", .nil)]).1
        { maxIterations := 3, functionPrefix := "fn/" } := by
  have hload : (found nestedFile Location.defaults).isOk = true ∧
      load nestedFile Location.defaults
        [(.text "max_iterations", .int 3), (.text "max_call_depth", .nil)] =
        .ok { maxIterations := 3, functionPrefix := "fn/" } := by
    decide +kernel
  cases hfound : found nestedFile Location.defaults with
  | error e =>
    rw [hfound] at hload
    cases hload.1
  | ok read =>
    obtain ⟨entries, h⟩ := read
    exact ⟨entries, h, rfl, ((load_accepts_exactly_given _ hfound).2.1 _).1 hload.2⟩

/-- A number as a key is unknown, but the list of the unknown keys cannot be written. A long negative
number is no limit, but the complaint that shows it cannot be written. -/
theorem load_fails_in_complaint :
    load (configured "0: 0\n") Location.defaults [] = .error (.fault (.unlistableKey "int")) ∧
      load {} [] [(.text "max_iterations", .int (-10 ^ digitLimit))] =
        .error (.fault .integerTooLong) := by
  decide +kernel

end Settings

end NodeScript
