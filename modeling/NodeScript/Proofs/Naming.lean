import Mathlib
import NodeScript.Proofs.TableEntries

/-!
Two checks of names. The names of the scripting language are given by a pattern, and each check
accepts more than the pattern: scripts may put blanks around a name, and parameters may be written
in the letters of any script. Only what passes both checks is a name of the language. Since a
variable is kept under its name as written, blanks included, the same name with and without blanks
stands for two variables.
-/

namespace NodeScript

namespace Text

/-! ### The pattern -/

/-- What a name may begin with. -/
def nameStarts : List Char :=
  "abcdefghijklmnopqrstuvwxyzABCDEFGHIJKLMNOPQRSTUVWXYZ_".toList

/-- What may follow in a name. -/
def nameRests : List Char :=
  nameStarts ++ "0123456789".toList

/-- One of some characters. -/
def oneOf (cs : List Char) : RegularExpression Char :=
  (cs.map RegularExpression.char).sum

/-- The names of the scripting language: a letter or an underscore, then any number of letters,
digits and underscores. -/
def namePattern : RegularExpression Char :=
  oneOf nameStarts * (oneOf nameRests).star

def IsName (s : String) : Prop :=
  s.toList ∈ namePattern.matches'

variable {cs word : List Char} {c : Char}

theorem mem_oneOf_iff : word ∈ (oneOf cs).matches' ↔ ∃ c ∈ cs, word = [c] := by
  induction cs with
  | nil => exact iff_of_false (Language.notMem_zero _) (by simp)
  | cons c cs ih =>
    have hsum : oneOf (c :: cs) = .char c + oneOf cs := by simp [oneOf]
    rw [hsum, RegularExpression.matches'_add, Language.mem_add, ih, List.exists_mem_cons_iff]
    rfl

theorem mem_star_oneOf_iff : word ∈ (oneOf cs).star.matches' ↔ ∀ c ∈ word, c ∈ cs := by
  rw [RegularExpression.matches'_star, Language.mem_kstar]
  constructor
  · rintro ⟨parts, rfl, hparts⟩ c hc
    obtain ⟨part, hpart, hc⟩ := List.mem_flatten.1 hc
    obtain ⟨d, hd, rfl⟩ := mem_oneOf_iff.1 (hparts part hpart)
    rwa [List.mem_singleton.1 hc]
  · intro h
    refine ⟨word.map fun c => [c], ?_, fun part hpart => ?_⟩
    · rw [← List.flatMap_def, List.flatMap_singleton']
    · obtain ⟨c, hc, rfl⟩ := List.mem_map.1 hpart
      exact mem_oneOf_iff.2 ⟨c, h c hc, rfl⟩

theorem mem_namePattern_iff :
    word ∈ namePattern.matches' ↔
      ∃ c rest, word = c :: rest ∧ c ∈ nameStarts ∧ ∀ d ∈ rest, d ∈ nameRests := by
  rw [namePattern, RegularExpression.matches'_mul, Language.mem_mul]
  constructor
  · rintro ⟨first, hfirst, rest, hrest, rfl⟩
    obtain ⟨c, hc, rfl⟩ := mem_oneOf_iff.1 hfirst
    exact ⟨c, rest, rfl, hc, mem_star_oneOf_iff.1 hrest⟩
  · rintro ⟨c, rest, rfl, hc, hrest⟩
    exact ⟨[c], mem_oneOf_iff.2 ⟨c, hc, rfl⟩, rest, mem_star_oneOf_iff.2 hrest, rfl⟩

/-! ### Characters -/

/-- The characters for which all tables of letters agree. -/
def isAscii (c : Char) : Bool :=
  c.toNat < 128

theorem plain_of_mem : ∀ c ∈ nameRests, isAscii c = true ∧ isBlank c = false := by
  have hall : nameRests.all (fun c => isAscii c && !isBlank c) = true := by decide +kernel
  simpa using hall

theorem mem_nameRests_of_mem (h : c ∈ nameStarts) : c ∈ nameRests :=
  List.mem_append_left _ h

/-- Below the first letter outside of the pattern, all classes of characters are those of the
pattern. -/
theorem classes_below : ∀ n < 128,
    isScriptNameStart (Char.ofNat n) = decide (Char.ofNat n ∈ nameStarts) ∧
    isScriptNameRest (Char.ofNat n) = decide (Char.ofNat n ∈ nameRests) ∧
    letterEdges.contains (Char.ofNat n) = decide (Char.ofNat n ∈ nameStarts) ∧
    letterOrMarkEdges.contains (Char.ofNat n) = decide (Char.ofNat n ∈ nameRests) := by
  decide +kernel

theorem classes_of_isAscii (h : isAscii c = true) :
    isScriptNameStart c = decide (c ∈ nameStarts) ∧ isScriptNameRest c = decide (c ∈ nameRests) ∧
    letterEdges.contains c = decide (c ∈ nameStarts) ∧
    letterOrMarkEdges.contains c = decide (c ∈ nameRests) := by
  have hclasses := classes_below c.toNat (of_decide_eq_true h)
  rwa [Char.ofNat_toNat] at hclasses

theorem isAscii_of_isScriptNameRest (h : isScriptNameRest c = true) : isAscii c = true := by
  simp only [isScriptNameRest, Char.isAlphanum, Char.isAlpha, Char.isUpper, Char.isLower,
    Char.isDigit, Bool.or_eq_true, Bool.and_eq_true, decide_eq_true_eq, beq_iff_eq,
    UInt32.le_iff_toNat_le] at h
  have hval : c.toNat = c.val.toNat := rfl
  obtain ((⟨-, hle⟩ | ⟨-, hle⟩) | ⟨-, hle⟩) | rfl := h
  · exact decide_eq_true (by change c.val.toNat ≤ 90 at hle; omega)
  · exact decide_eq_true (by change c.val.toNat ≤ 122 at hle; omega)
  · exact decide_eq_true (by change c.val.toNat ≤ 57 at hle; omega)
  · decide

theorem isScriptNameRest_iff : isScriptNameRest c = true ↔ c ∈ nameRests := by
  constructor
  · intro h
    have hclass := (classes_of_isAscii (isAscii_of_isScriptNameRest h)).2.1
    exact of_decide_eq_true (hclass.symm.trans h)
  · intro h
    rw [(classes_of_isAscii (plain_of_mem c h).1).2.1]
    exact decide_eq_true h

theorem isScriptNameStart_iff : isScriptNameStart c = true ↔ c ∈ nameStarts := by
  constructor
  · intro h
    have hrest : isScriptNameRest c = true := by
      simp only [isScriptNameStart, isScriptNameRest, Char.isAlphanum, Bool.or_eq_true] at h ⊢
      exact h.imp_left .inl
    have hclass := (classes_of_isAscii (isAscii_of_isScriptNameRest hrest)).1
    exact of_decide_eq_true (hclass.symm.trans h)
  · intro h
    rw [(classes_of_isAscii (plain_of_mem c (mem_nameRests_of_mem h)).1).1]
    exact decide_eq_true h

/-! ### Blanks -/

/-- The code points inside a class whose edges come in pairs. -/
def Edges.points : Edges → List Nat
  | first :: behind :: edges => List.range' first (behind - first) ++ Edges.points edges
  | _ => []

theorem Edges.mem_points {edges : Edges} {n : Nat} (hpaired : edges.length % 2 = 0)
    (h : edges.inside false n = true) : n ∈ edges.points := by
  fun_induction Edges.points edges with
  | case1 first behind edges ih =>
    simp only [Edges.inside, Bool.not_false, Bool.not_true] at h
    rw [List.mem_append, List.mem_range'_1]
    split at h
    · cases h
    · split at h
      · exact .inl (by omega)
      · rw [List.length_cons, List.length_cons, Nat.add_assoc, Nat.add_mod_right] at hpaired
        exact .inr (ih hpaired h)
  | case2 edges hshort =>
    match edges with
    | [] => cases h
    | [_] => cases hpaired
    | first :: behind :: edges => exact absurd rfl (hshort first behind edges)

theorem not_letter_of_isBlank (h : isBlank c = true) :
    letterEdges.contains c = false ∧ letterOrMarkEdges.contains c = false := by
  have hall : blankEdges.points.all (fun n =>
      !letterEdges.inside false n && !letterOrMarkEdges.inside false n) = true := by
    decide +kernel
  have hpoint := List.all_eq_true.1 hall c.toNat (Edges.mem_points rfl h)
  simpa [Edges.contains] using hpoint

/-- Blanks before what does not begin with a blank. -/
theorem dropWhile_blanks {blanks : List Char} (hblanks : ∀ c ∈ blanks, isBlank c = true)
    (hcs : ∀ c ∈ cs, isBlank c = false) (hne : cs ≠ []) (rest : List Char) :
    (blanks ++ (cs ++ rest)).dropWhile isBlank = cs ++ rest := by
  obtain ⟨c, cs, rfl⟩ := List.exists_cons_of_ne_nil hne
  rw [List.dropWhile_append_of_pos hblanks, List.cons_append,
    List.dropWhile_cons_of_neg (by simp [hcs c])]

theorem trimChars_blanks {left right : List Char} (hleft : ∀ c ∈ left, isBlank c = true)
    (hright : ∀ c ∈ right, isBlank c = true) (hcs : ∀ c ∈ cs, isBlank c = false) (hne : cs ≠ []) :
    trimChars (left ++ cs ++ right) = cs := by
  have hback : (right.reverse ++ (cs.reverse ++ [])).dropWhile isBlank = cs.reverse ++ [] :=
    dropWhile_blanks (by simpa using hright) (by simpa using hcs) (by simpa using hne) []
  rw [List.append_nil] at hback
  rw [trimChars, List.append_assoc, dropWhile_blanks hleft hcs hne, List.reverse_append, hback,
    List.reverse_reverse]

theorem exists_trimChars (cs : List Char) :
    ∃ left right, cs = left ++ trimChars cs ++ right ∧ (∀ c ∈ left, isBlank c = true) ∧
      ∀ c ∈ right, isBlank c = true := by
  refine ⟨cs.takeWhile isBlank, (cs.dropWhile isBlank).rtakeWhile isBlank, ?_,
    fun c hc => List.mem_takeWhile_imp hc, fun c hc => List.mem_rtakeWhile_imp hc⟩
  have htrim : trimChars cs = (cs.dropWhile isBlank).rdropWhile isBlank := rfl
  rw [htrim, List.append_assoc, List.rdropWhile_append_rtakeWhile, List.takeWhile_append_dropWhile]

/-! ### The two checks -/

variable {n : String}

theorem isScriptNameChars_iff : isScriptNameChars word = true ↔ word ∈ namePattern.matches' := by
  rw [mem_namePattern_iff]
  cases word with
  | nil => simp [isScriptNameChars]
  | cons c rest =>
    simp [isScriptNameChars, isScriptNameStart_iff, isScriptNameRest_iff]

/-- A name consists of characters that may follow in a name. -/
theorem IsName.mem_nameRests (h : IsName n) : ∀ c ∈ n.toList, c ∈ nameRests := by
  obtain ⟨c, rest, hn, hc, hrest⟩ := mem_namePattern_iff.1 h
  rw [hn, List.forall_mem_cons]
  exact ⟨mem_nameRests_of_mem hc, hrest⟩

/-- Scripts accept names with blanks around them. -/
theorem isScriptName_iff :
    isScriptName n = true ↔ ∃ left name right, n = left ++ name ++ right ∧
      (∀ c ∈ left.toList, isBlank c = true) ∧ (∀ c ∈ right.toList, isBlank c = true) ∧
      IsName name := by
  rw [isScriptName, isScriptNameChars_iff]
  constructor
  · intro h
    obtain ⟨left, right, hn, hleft, hright⟩ := exists_trimChars n.toList
    refine ⟨.ofList left, .ofList (trimChars n.toList), .ofList right, ?_, by simpa using hleft,
      by simpa using hright, by simpa [IsName] using h⟩
    rw [← String.toList_inj]
    simpa using hn
  · rintro ⟨left, name, right, rfl, hleft, hright, hname⟩
    have hne : name.toList ≠ [] := by
      obtain ⟨c, rest, hcons, -⟩ := mem_namePattern_iff.1 hname
      simp [hcons]
    have hcs : ∀ c ∈ name.toList, isBlank c = false :=
      fun c hc => (plain_of_mem c (hname.mem_nameRests c hc)).2
    rw [String.toList_append, String.toList_append, trimChars_blanks hleft hright hcs hne]
    exact hname

/-- Parameters without foreign letters are names. -/
theorem isParameterName_iff_of_isAscii (h : ∀ c ∈ n.toList, isAscii c = true) :
    isParameterName n = true ↔ IsName n := by
  rw [IsName, mem_namePattern_iff, isParameterName]
  cases hn : n.toList with
  | nil => simp
  | cons c cs =>
    rw [hn, List.forall_mem_cons] at h
    have hfirst := (classes_of_isAscii h.1).2.2.1
    have hrest : cs.all letterOrMarkEdges.contains = true ↔ ∀ d ∈ cs, d ∈ nameRests := by
      rw [List.all_eq_true]
      refine forall₂_congr fun d hd => ?_
      rw [(classes_of_isAscii (h.2 d hd)).2.2.2, decide_eq_true_iff]
    simp only [hfirst, Bool.and_eq_true, decide_eq_true_eq, hrest]
    constructor
    · rintro ⟨hc, hcs⟩
      exact ⟨c, cs, rfl, hc, hcs⟩
    · rintro ⟨_, _, ⟨⟩, hc, hcs⟩
      exact ⟨hc, hcs⟩

theorem not_isBlank_of_isParameterName (h : isParameterName n = true) :
    ∀ c ∈ n.toList, isBlank c = false := by
  rw [isParameterName] at h
  cases hn : n.toList with
  | nil => exact nofun
  | cons c cs =>
    simp only [hn, Bool.and_eq_true, List.all_eq_true] at h
    intro d hd
    by_contra hblank
    obtain ⟨hletter, hmark⟩ := not_letter_of_isBlank (Bool.eq_true_of_not_eq_false hblank)
    obtain rfl | hd := List.mem_cons.1 hd
    · rw [hletter] at h
      cases h.1
    · rw [h.2 d hd] at hmark
      cases hmark

/-- The names of the scripting language are what passes both checks. -/
theorem isName_iff : IsName n ↔ isParameterName n = true ∧ isScriptName n = true := by
  constructor
  · intro h
    have hascii : ∀ c ∈ n.toList, isAscii c = true :=
      fun c hc => (plain_of_mem c (h.mem_nameRests c hc)).1
    refine ⟨(isParameterName_iff_of_isAscii hascii).2 h, isScriptName_iff.2 ⟨"", n, "", ?_⟩⟩
    simp [h]
  · rintro ⟨hparameter, hscript⟩
    obtain ⟨left, name, right, rfl, hleft, hright, hname⟩ := isScriptName_iff.1 hscript
    have hnot := not_isBlank_of_isParameterName hparameter
    simp only [String.toList_append, List.forall_mem_append] at hnot
    have hempty {s : String} (hs : ∀ c ∈ s.toList, isBlank c = true)
        (hs' : ∀ c ∈ s.toList, isBlank c = false) : s = "" := by
      rw [← String.toList_eq_nil_iff, List.eq_nil_iff_forall_not_mem]
      intro c hc
      simpa [hs c hc] using hs' c hc
    rw [hempty hleft hnot.1.1, hempty hright hnot.2]
    simpa using hname

/-- Of parameters, scripts accept those without foreign letters. -/
theorem isScriptName_iff_of_isParameterName (h : isParameterName n = true) :
    isScriptName n = true ↔ ∀ c ∈ n.toList, isAscii c = true := by
  constructor
  · intro hscript
    exact fun c hc => (plain_of_mem c ((isName_iff.2 ⟨h, hscript⟩).mem_nameRests c hc)).1
  · intro hascii
    exact (isName_iff.1 ((isParameterName_iff_of_isAscii hascii).1 h)).2

end Text

/-! ### Reports about parameters -/

namespace Graph

variable {g : Graph} {n : String}

theorem head?_of_mem_blockProblems {p : String} (hp : p ∈ g.blockProblems) :
    p.toList.head? = some 'M' ∨ p.toList.head? = some 'U' := by
  rw [blockProblems, List.mem_append, List.mem_filterMap, List.mem_map] at hp
  obtain ⟨index, -, hp⟩ | ⟨index, -, rfl⟩ := hp
  · left
    unfold openerProblem? at hp
    split at hp
    · split at hp
      · cases hp
      · split at hp
        · cases hp
        · split at hp
          · cases hp
            simp [toString, String.toList_append]
          · cases hp
            simp [toString, String.toList_append]
    · cases hp
  · right
    simp [toString, String.toList_append]

/-- The check of a graph reports exactly those of its parameters that are no parameter names. -/
theorem mem_problems_iff :
    s!"Invalid parameter name: '{n}'" ∈ g.problems ↔
      n ∈ g.parameters.getD [] ∧ Text.isParameterName n = false := by
  have hfirst : (s!"Invalid parameter name: '{n}'").toList.head? = some 'I' := by
    simp [toString, String.toList_append]
  rw [problems, parameterProblems, List.mem_append, List.mem_append]
  constructor
  · rintro (hblock | hinvalid | hduplicate)
    · have hblock := head?_of_mem_blockProblems hblock
      rw [hfirst] at hblock
      simp at hblock
    · obtain ⟨m, hm, heq⟩ := List.mem_map.1 hinvalid
      have hmn : m = n := by
        rw [← String.toList_inj] at heq ⊢
        simpa [toString, String.toList_append] using heq
      simpa [hmn] using hm
    · obtain ⟨m, -, heq⟩ := List.mem_map.1 hduplicate
      rw [← heq] at hfirst
      simp [toString, String.toList_append] at hfirst
  · intro h
    exact .inr (.inl (List.mem_map.2 ⟨n, by simpa using h, rfl⟩))

end Graph

/-! ### Variables under their names -/

namespace SetVariable

variable {s : SetVariable} {c c' : Context} {n : String}

theorem leaf_refuses (hname : s.name = some n) (hn : Text.isScriptName n = false) :
    ∃ r : Record, r.IsError ∧ Exec.leaf (.setVariable s) c = .ok (some r) c := by
  have hinvalid : validName? s.name = none := by simp [validName?, hname, hn]
  rw [Exec.leaf_apply, Leaf.eval, eval, hinvalid]
  exact ⟨errorRecord c.scope "setVariable" s!"Invalid variable name: {nameText s.name}", rfl, rfl⟩

/-- A variable is set under its name as written. -/
theorem bindings_of_leaf {r : Option Record} (hname : s.name = some n)
    (hn : Text.isScriptName n = true) (h : Exec.leaf (.setVariable s) c = .ok r c') :
    ∃ v, c'.bindings = c.bindings.insert n v := by
  have hvalid : validName? s.name = some n := by simp [validName?, hname, hn]
  rw [Exec.leaf_apply, Leaf.eval, eval, hvalid] at h
  simp only [bind, EStateM.bind] at h
  cases hv : s.newValue n c.scope c.draft with
  | error f d =>
    rw [hv] at h
    cases h
  | ok v d =>
    rw [hv] at h
    cases h
    have hadopt := Context.evaluated_adopt { c with heap := {} } d
    refine ⟨v, congrArg (Dict.insert · n v) ?_⟩
    rw [hadopt]

end SetVariable

/-- What passes both checks of names is what the pattern of the language describes. By itself the
check that instructions make accepts such names with any blanks around them, and the check that
graphs make of their parameters, which decides what is reported about them, accepts besides such
names only ones with letters that instructions refuse. An instruction that accepts a name sets the
variable of just that name: one with other blanks around it is another variable and stays as it
is. -/
theorem names_pass_both_checks (n : String) :
    (Text.IsName n ↔ Text.isParameterName n = true ∧ Text.isScriptName n = true) ∧
    (Text.isScriptName n = true ↔ ∃ left name right, n = left ++ name ++ right ∧
      (∀ c ∈ left.toList, Text.isBlank c = true) ∧ (∀ c ∈ right.toList, Text.isBlank c = true) ∧
      Text.IsName name) ∧
    (Text.isParameterName n = true →
      (Text.isScriptName n = true ↔ ∀ c ∈ n.toList, Text.isAscii c = true)) ∧
    (∀ g : Graph, s!"Invalid parameter name: '{n}'" ∈ g.problems ↔
      n ∈ g.parameters.getD [] ∧ Text.isParameterName n = false) ∧
    ∀ (s : SetVariable) (c : Context), s.name = some n →
      (Text.isScriptName n = false →
        ∃ r : Record, r.IsError ∧ Exec.leaf (.setVariable s) c = .ok (some r) c) ∧
      (Text.isScriptName n = true → ∀ r c', Exec.leaf (.setVariable s) c = .ok r c' →
        ∃ v, ∀ other, c'.bindings.get? other =
          if other = n then some v else c.bindings.get? other) := by
  refine ⟨Text.isName_iff, Text.isScriptName_iff, Text.isScriptName_iff_of_isParameterName,
    fun g => Graph.mem_problems_iff, fun s c hname => ⟨SetVariable.leaf_refuses hname, ?_⟩⟩
  intro hn r c' h
  obtain ⟨v, hbindings⟩ := SetVariable.bindings_of_leaf hname hn h
  refine ⟨v, fun other => ?_⟩
  rw [hbindings]
  split
  · next heq => exact Dict.get?_insert_of_same (beq_iff_eq.2 heq.symm) v c.bindings
  · next hne => exact Dict.get?_insert_of_ne hne v c.bindings

/-- Sets the variable of this name to a text. -/
def settingTo (name text : String) : SetVariable where
  name := some name
  value := .text text
  dataType := .string

/-- What is set under a name between blanks is not what the name without them stands for. -/
theorem padded_is_another_variable :
    ∃ r c', Exec.leaf (.setVariable (settingTo " x " "new"))
        { bindings := .ofList [("x", .text "old")] } = .ok r c' ∧
      c'.bindings.get? "x" = some (.text "old") ∧ (c'.bindings.get? " x ").isSome := by
  obtain ⟨-, -, -, -, hsets⟩ := names_pass_both_checks " x "
  obtain ⟨v, hv⟩ := (hsets (settingTo " x " "new") { bindings := .ofList [("x", .text "old")] }
    rfl).2 (by decide) _ _ rfl
  refine ⟨_, _, rfl, ?_, ?_⟩
  · rw [hv]
    rfl
  · rw [hv]
    rfl

/-- Each check accepts what the other does not and what is no name of the language. -/
theorem checks_of_names_disagree :
    (Text.isScriptName " x " = true ∧ Text.isParameterName " x " = false ∧ ¬ Text.IsName " x ") ∧
    Text.isParameterName "é" = true ∧ Text.isScriptName "é" = false ∧ ¬ Text.IsName "é" := by
  have hpadded : Text.isParameterName " x " = false := by decide
  have hforeign : Text.isScriptName "é" = false := by decide
  refine ⟨⟨by decide, hpadded, fun h => ?_⟩, by decide +kernel, hforeign, fun h => ?_⟩
  · cases hpadded.symm.trans (Text.isName_iff.1 h).1
  · cases hforeign.symm.trans (Text.isName_iff.1 h).2

end NodeScript
