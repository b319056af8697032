import NodeScript.Proofs.Containment
import NodeScript.Proofs.Counting
import NodeScript.Proofs.Refusals
import NodeScript.Proofs.Showing

/-!
Filled formats. Every format has one layout: texts without a placeholder, and the placeholders between
them. The result has the texts of the layout with an argument between each two, and what an argument
says is never looked at again. A warning tells of more arguments than placeholders.
-/

namespace NodeScript

namespace FormatText

/-! ### Layouts -/

def HasPlaceholder (cs : List Char) : Prop :=
  ∃ before c after, isSpecifier c = true ∧ cs = before ++ '%' :: c :: after

theorem hasPlaceholder_cons_iff {c : Char} {cs : List Char} :
    HasPlaceholder (c :: cs) ↔
      (c = '%' ∧ ∃ d after, isSpecifier d = true ∧ cs = d :: after) ∨ HasPlaceholder cs := by
  constructor
  · rintro ⟨before, d, after, hd, heq⟩
    cases before with
    | nil =>
      obtain ⟨rfl, rfl⟩ := List.cons.inj heq
      exact .inl ⟨rfl, d, after, hd, rfl⟩
    | cons b before =>
      obtain ⟨-, rfl⟩ := List.cons.inj heq
      exact .inr ⟨before, d, after, hd, rfl⟩
  · rintro (⟨rfl, d, after, hd, rfl⟩ | ⟨before, d, after, hd, rfl⟩)
    · exact ⟨[], d, after, hd, rfl⟩
    · exact ⟨c :: before, d, after, hd, rfl⟩

theorem not_hasPlaceholder_nil : ¬ HasPlaceholder [] := by
  rintro ⟨before, c, after, -, heq⟩
  simp at heq

/-- A format taken apart: the text before the first placeholder, and for each placeholder its letter
with the text up to the next one. -/
structure Layout where
  lead : List Char
  rest : List (Char × List Char)
deriving DecidableEq

namespace Layout

/-- A placeholder with the text behind it. -/
def charsOf (p : Char × List Char) : List Char :=
  '%' :: p.1 :: p.2

def chars (l : Layout) : List Char :=
  l.lead ++ l.rest.flatMap charsOf

def count (l : Layout) : Nat :=
  l.rest.length

/-- The texts of the layout with another text in the place of each placeholder. -/
def filled (l : Layout) (shown : List String) : List Char :=
  l.lead ++ (List.zipWith (fun p s => s.toList ++ p.2) l.rest shown).flatten

/-- The layout is one of this format, and each placeholder is one of its own. -/
structure Splits (l : Layout) (cs : List Char) : Prop where
  chars_eq : l.chars = cs
  specifiers : ∀ p ∈ l.rest, isSpecifier p.1 = true
  lead_free : ¬ HasPlaceholder l.lead
  rest_free : ∀ p ∈ l.rest, ¬ HasPlaceholder p.2

/-- The layout with a character in front. -/
def push (c : Char) (l : Layout) : Layout :=
  ⟨c :: l.lead, l.rest⟩

/-- The layout with a placeholder in front. -/
def pushPlaceholder (c : Char) (l : Layout) : Layout :=
  ⟨[], (c, l.lead) :: l.rest⟩

/-- The layout that is found from left to right. -/
def ofChars : List Char → Layout
  | [] => ⟨[], []⟩
  | [c] => ⟨[c], []⟩
  | c :: d :: rest =>
    if c == '%' && isSpecifier d then (ofChars rest).pushPlaceholder d
    else (ofChars (d :: rest)).push c
termination_by structural cs => cs

theorem Splits.push {l : Layout} {c : Char} {cs : List Char} (h : l.Splits cs)
    (hc : c = '%' → ∀ d after, cs = d :: after → isSpecifier d = false) :
    (l.push c).Splits (c :: cs) := by
  refine ⟨congrArg (c :: ·) h.chars_eq, h.specifiers, fun hp => ?_, h.rest_free⟩
  obtain ⟨hpercent, d, after, hd, hlead⟩ | hp := hasPlaceholder_cons_iff.1 hp
  · have hcs : cs = d :: (after ++ l.rest.flatMap charsOf) := by rw [← h.chars_eq, chars, hlead]; rfl
    exact absurd hd (by rw [hc hpercent d _ hcs]; decide)
  · exact h.lead_free hp

theorem Splits.pushPlaceholder {l : Layout} {c : Char} {cs : List Char} (h : l.Splits cs)
    (hc : isSpecifier c = true) : (l.pushPlaceholder c).Splits ('%' :: c :: cs) := by
  refine ⟨congrArg ('%' :: c :: ·) h.chars_eq, ?_, not_hasPlaceholder_nil, ?_⟩
  · exact List.forall_mem_cons.2 ⟨hc, h.specifiers⟩
  · exact List.forall_mem_cons.2 ⟨h.lead_free, h.rest_free⟩

theorem ofChars_splits (cs : List Char) : (ofChars cs).Splits cs := by
  fun_induction ofChars cs with
  | case1 => exact ⟨rfl, nofun, not_hasPlaceholder_nil, nofun⟩
  | case2 c =>
    have hnil : Splits ⟨[], []⟩ [] := ⟨rfl, nofun, not_hasPlaceholder_nil, nofun⟩
    exact hnil.push nofun
  | case3 c d rest hplace ih =>
    obtain ⟨hc, hd⟩ := Bool.and_eq_true_iff.1 hplace
    rw [eq_of_beq hc]
    exact ih.pushPlaceholder hd
  | case4 c d rest hplace ih =>
    refine ih.push ?_
    rintro rfl d' after heq
    obtain ⟨rfl, -⟩ := List.cons.inj heq
    simpa using hplace

theorem ofChars_percent {c : Char} (hc : isSpecifier c = true) (cs : List Char) :
    ofChars ('%' :: c :: cs) = (ofChars cs).pushPlaceholder c := by
  rw [ofChars, if_pos (by simp [hc])]

/-- What stands behind a text is read on its own if it does not begin with the letter of a
placeholder. -/
theorem ofChars_append {text cs : List Char} (hfree : ¬ HasPlaceholder text)
    (hcs : ∀ d after, cs = d :: after → isSpecifier d = false) :
    ofChars (text ++ cs) = ⟨text ++ (ofChars cs).lead, (ofChars cs).rest⟩ := by
  induction text with
  | nil => rfl
  | cons c text ih =>
    have ih := ih fun hp => hfree (hasPlaceholder_cons_iff.2 (.inr hp))
    cases hnext : text ++ cs with
    | nil =>
      obtain ⟨rfl, rfl⟩ := List.append_eq_nil_iff.1 hnext
      rfl
    | cons d after =>
      have hplace : ¬ (c == '%' && isSpecifier d) = true := by
        rw [Bool.and_eq_true_iff]
        rintro ⟨hc, hd⟩
        cases text with
        | nil => exact absurd hd (by rw [hcs d after hnext]; decide)
        | cons d' text =>
          obtain ⟨rfl, -⟩ := List.cons.inj hnext
          exact hfree (hasPlaceholder_cons_iff.2 (.inl ⟨eq_of_beq hc, d', text, hd, rfl⟩))
      rw [List.cons_append, hnext, ofChars, if_neg hplace, ← hnext, ih]
      rfl

/-- Behind a text there is nothing, or a percent sign. -/
theorem percent_of_rest {rest : List (Char × List Char)} {d : Char} {after : List Char}
    (h : rest.flatMap charsOf = d :: after) : isSpecifier d = false := by
  cases rest with
  | nil => cases h
  | cons p rest =>
    obtain ⟨rfl, -⟩ := List.cons.inj h
    rfl

theorem ofChars_rest {rest : List (Char × List Char)}
    (hspecifiers : ∀ p ∈ rest, isSpecifier p.1 = true)
    (hfree : ∀ p ∈ rest, ¬ HasPlaceholder p.2) :
    ofChars (rest.flatMap charsOf) = ⟨[], rest⟩ := by
  induction rest with
  | nil => rfl
  | cons p rest ih =>
    obtain ⟨hp, hspecifiers⟩ := List.forall_mem_cons.1 hspecifiers
    obtain ⟨hpfree, hfree⟩ := List.forall_mem_cons.1 hfree
    have htext : ofChars (p.2 ++ rest.flatMap charsOf) = ⟨p.2, rest⟩ := by
      rw [ofChars_append hpfree fun _ _ => percent_of_rest, ih hspecifiers hfree, List.append_nil]
    calc ofChars ((p :: rest).flatMap charsOf)
        = ofChars ('%' :: p.1 :: (p.2 ++ rest.flatMap charsOf)) := rfl
      _ = ⟨[], p :: rest⟩ := by rw [ofChars_percent hp, htext]; rfl

/-- A format has one layout. -/
theorem splits_iff {l : Layout} {cs : List Char} : l.Splits cs ↔ l = ofChars cs := by
  constructor
  · intro h
    rw [← h.chars_eq, chars, ofChars_append h.lead_free fun _ _ => percent_of_rest,
      ofChars_rest h.specifiers h.rest_free, List.append_nil]
  · rintro rfl
    exact ofChars_splits cs

/-! ### Filling a layout -/

def piecesOf (p : Char × List Char) : List Piece :=
  .placeholder :: p.2.map .char

def pieces (l : Layout) : List Piece :=
  l.lead.map .char ++ l.rest.flatMap piecesOf

theorem pieces_ofChars (cs : List Char) : (ofChars cs).pieces = FormatText.pieces cs := by
  fun_induction ofChars cs with
  | case1 => rfl
  | case2 c => rfl
  | case3 c d rest hplace ih =>
    rw [FormatText.pieces, if_pos hplace, ← ih]
    rfl
  | case4 c d rest hplace ih =>
    rw [FormatText.pieces, if_neg hplace, ← ih]
    rfl

theorem placeholders_pieces (l : Layout) : placeholders l.pieces = l.count := by
  obtain ⟨lead, rest⟩ := l
  have htext (text : List Char) : (text.map Piece.char).count .placeholder = 0 := by
    rw [List.count_eq_zero]
    simp
  simp only [placeholders, pieces, count, List.count_append, htext, Nat.zero_add]
  induction rest with
  | nil => rfl
  | cons p rest ih =>
    rw [List.flatMap_cons, List.count_append, ih, piecesOf, List.count_cons_self, htext,
      List.length_cons]
    omega

end Layout

/-- The first arguments, and nil where there are too few. -/
def wanted (n : Nat) (args : List Value) : List Value :=
  (List.range n).map fun i => args.getD i .nil

theorem wanted_succ (n : Nat) (args : List Value) :
    wanted (n + 1) args = args.head?.getD .nil :: wanted n args.tail := by
  rw [wanted, List.range_succ_eq_map, List.map_cons, List.map_map, wanted]
  cases args <;> simp [Function.comp_def]

variable {h : Heap} {room : Nat}

theorem fill_text (text : List Char) (ps : List Piece) (args : List Value) :
    fill h room (text.map .char ++ ps) args = (text ++ ·) <$> fill h room ps args := by
  induction text with
  | nil => cases hfill : fill h room ps args <;> simp [hfill]
  | cons c text ih =>
    rw [List.map_cons, List.cons_append, fill, ih]
    cases fill h room ps args <;> rfl

theorem fill_nil (lead : List Char) (args : List Value) :
    fill h room (Layout.pieces ⟨lead, []⟩) args = .ok lead := by
  rw [Layout.pieces, fill_text]
  exact congrArg Except.ok (List.append_nil lead)

theorem fill_cons (lead : List Char) (p : Char × List Char) (rest : List (Char × List Char))
    (args : List Value) :
    fill h room (Layout.pieces ⟨lead, p :: rest⟩) args = (lead ++ ·) <$> do
      let shown ← h.scriptText room (args.head?.getD .nil)
      return shown.toList ++ (← fill h room (Layout.pieces ⟨p.2, rest⟩) args.tail) := by
  rw [Layout.pieces, fill_text]
  rfl

/-- The texts of the arguments that a format needs stand between the texts of its layout. -/
theorem fill_pieces (l : Layout) {args : List Value} {shown : List String}
    (hshown : (wanted l.count args).map (h.scriptText room) = shown.map .ok) :
    fill h room l.pieces args = .ok (l.filled shown) := by
  obtain ⟨lead, rest⟩ := l
  induction rest generalizing lead args shown with
  | nil =>
    rw [fill_nil, Layout.filled, List.zipWith_nil_left, List.flatten_nil, List.append_nil]
  | cons p rest ih =>
    cases shown with
    | nil => exact absurd (congrArg List.length hshown) (by simp [wanted, Layout.count])
    | cons s shown =>
      rw [Layout.count, List.length_cons, wanted_succ] at hshown
      obtain ⟨hfirst, hrest⟩ := List.cons.inj hshown
      rw [fill_cons, hfirst, ih p.2 hrest]
      simp [Layout.filled, bind, Except.bind, pure, Except.pure, Functor.map, Except.map]

theorem fill_isOk_iff (l : Layout) (args : List Value) :
    (∃ cs, fill h room l.pieces args = .ok cs) ↔
      ∀ v ∈ wanted l.count args, (h.tree v).Showable room := by
  obtain ⟨lead, rest⟩ := l
  induction rest generalizing lead args with
  | nil => exact iff_of_true ⟨lead, fill_nil lead args⟩ nofun
  | cons p rest ih =>
    rw [Layout.count, List.length_cons, wanted_succ, List.forall_mem_cons]
    simp only [fill_cons, map_eq_pure_bind, exists_ok_bind, exists_ok_pure, and_true,
      exists_and_right]
    exact and_congr (Tree.scriptText_isOk_iff _ room) (ih args.tail p.2)

/-- The texts of values that can all be shown. -/
theorem exists_shown {vs : List Value} (hvs : ∀ v ∈ vs, (h.tree v).Showable room) :
    ∃ shown : List String, vs.map (h.scriptText room) = shown.map .ok := by
  induction vs with
  | nil => exact ⟨[], rfl⟩
  | cons v vs ih =>
    obtain ⟨hv, hvs⟩ := List.forall_mem_cons.1 hvs
    obtain ⟨s, hs⟩ := (Tree.scriptText_isOk_iff _ room).2 hv
    obtain ⟨shown, hshown⟩ := ih hvs
    exact ⟨s :: shown, by rw [List.map_cons, List.map_cons, hshown, ← hs]; rfl⟩

/-! ### Evaluation -/

/-- What a filled format leads to. -/
def success (c : FormatText) (name : String) (args : List Value) (result : String) : Effect where
  binding := some (name, .text result)
  output := some
    [("action", .text "stringFormat"), ("status", .text "simulated"),
     ("format_string", .text c.format), ("arguments", .list args),
     ("simulated_result", .text result), ("result_variable", .text name)]

/-- What has been reported after a format with so many placeholders was given so many arguments. -/
def reportSurplus (args count : Nat) (warnings : Array String) : Array String :=
  if count < args then
    warnings.push s!"stringFormat received {args} argument(s) for {count} placeholder(s)"
  else warnings

variable {c : FormatText} {scope : Scope} {name : String} {d d' : Draft} {args : List Value}

theorem eval_of_unreadable (hname : validName? c.resultVariable = some name) {f : Fault}
    (hargs : Source.resolveAll scope c.arguments d = .error f d') :
    c.eval scope d = .error f d' := by
  simp only [eval, hname, bind, EStateM.bind, hargs]

theorem eval_of_resolveAll (hname : validName? c.resultVariable = some name)
    (hargs : Source.resolveAll scope c.arguments d = .ok args d') :
    c.eval scope d =
      match fill d'.heap d'.room (pieces c.format.toList) args with
      | .error f => .error f d'
      | .ok cs =>
        .ok (c.success name args (String.ofList cs))
          { d' with
            warnings := reportSurplus args.length (placeholders (pieces c.format.toList)) d'.warnings } := by
  simp only [eval, hname, bind, EStateM.bind, hargs, Eval.ask_apply]
  cases hfill : fill d'.heap d'.room (pieces c.format.toList) args with
  | error f => rfl
  | ok cs =>
    by_cases hsurplus : placeholders (pieces c.format.toList) < args.length
    · simp only [reportSurplus, if_pos hsurplus]
      rfl
    · simp only [reportSurplus, if_neg hsurplus]
      rfl

/-- The arguments are read first, all of them. The result has the texts of those that the format needs
in the places of its placeholders. There is no result if an argument cannot be read, or if one that
the format needs cannot be shown. -/
theorem eval_substitutes (c : FormatText) (scope : Scope) (d : Draft) {name : String}
    (hname : validName? c.resultVariable = some name) :
    ∃ l : Layout, (∀ l', l'.Splits c.format.toList ↔ l' = l) ∧
      ((∃ source ∈ c.arguments, source.Unreadable d.room) →
        ∃ f d', c.eval scope d = .error f d') ∧
      ((¬ ∃ source ∈ c.arguments, source.Unreadable d.room) →
        ∃ args d', Source.resolveAll scope c.arguments d = .ok args d' ∧
          ((∃ v ∈ wanted l.count args, ¬ (d'.heap.tree v).Showable d'.room) →
            ∃ f, c.eval scope d = .error f d') ∧
          ((∀ v ∈ wanted l.count args, (d'.heap.tree v).Showable d'.room) →
            ∃ shown : List String,
              (wanted l.count args).map (d'.heap.scriptText d'.room) = shown.map .ok ∧
              c.eval scope d = .ok (c.success name args (String.ofList (l.filled shown)))
                { d' with warnings := reportSurplus args.length l.count d'.warnings })) := by
  refine ⟨.ofChars c.format.toList, fun _ => Layout.splits_iff, ?_⟩
  obtain ⟨hbad, f, d', hargs⟩ | ⟨hgood, args, d', hargs⟩ :=
    Source.resolveAll_cases scope c.arguments d
  · exact ⟨fun _ => ⟨f, d', eval_of_unreadable hname hargs⟩, fun hgood => absurd hbad hgood⟩
  · refine ⟨fun hbad => absurd hbad hgood, fun _ => ⟨args, d', hargs, ?_⟩⟩
    have heval := eval_of_resolveAll hname hargs
    rw [← Layout.pieces_ofChars, Layout.placeholders_pieces] at heval
    generalize Layout.ofChars c.format.toList = l at heval ⊢
    constructor
    · rintro ⟨v, hv, hshow⟩
      cases hfill : fill d'.heap d'.room l.pieces args with
      | error f => exact ⟨f, by rw [heval, hfill]⟩
      | ok cs => exact absurd ((fill_isOk_iff l args).1 ⟨cs, hfill⟩ v hv) hshow
    · intro hshow
      obtain ⟨shown, hshown⟩ := exists_shown hshow
      exact ⟨shown, hshown, by rw [heval, fill_pieces l hshown]⟩

/-- A percent sign before a placeholder, an argument that looks like one, and an argument too many. -/
def percentSigns : FormatText where
  format := "%%s=%d%"
  arguments := [⟨.literal, .text "%d"⟩, ⟨.literal, .int 7⟩, ⟨.literal, .text "nil"⟩]
  resultVariable := some "r"

theorem eval_percentSigns :
    validName? percentSigns.resultVariable = some "r" ∧
      percentSigns.eval ⟨{}, none⟩ ⟨{}, nestingLimit, #[]⟩ =
        .ok (percentSigns.success "r" [.text "%d", .int 7, .nil] "%%d=7%")
          ⟨{}, nestingLimit, #["stringFormat received 3 argument(s) for 2 placeholder(s)"]⟩ := by
  have hname : validName? percentSigns.resultVariable = some "r" := by decide
  have hread : ¬ ∃ source ∈ percentSigns.arguments, source.Unreadable nestingLimit := by
    obtain ⟨-, f, d', herror⟩ | ⟨hgood, -⟩ :=
      Source.resolveAll_cases ⟨{}, none⟩ percentSigns.arguments ⟨{}, nestingLimit, #[]⟩
    · cases herror
    · exact hgood
  obtain ⟨l, hl, -, hok⟩ := eval_substitutes percentSigns ⟨{}, none⟩ ⟨{}, nestingLimit, #[]⟩ hname
  obtain rfl := (hl _).1 (Layout.ofChars_splits _)
  obtain ⟨args, d', hargs, -, hshow⟩ := hok hread
  obtain ⟨rfl, rfl⟩ : [.text "%d", .int 7, .nil] = args ∧ ⟨{}, nestingLimit, #[]⟩ = d' := by
    injection hargs with hargs hd
    exact ⟨hargs, hd⟩
  obtain ⟨shown, hshown, heval⟩ := hshow (List.forall_mem_cons.2
    ⟨(Tree.scriptText_isOk_iff _ _).1 ⟨_, rfl⟩, List.forall_mem_cons.2
      ⟨(Tree.scriptText_isOk_iff _ _).1 ⟨_, rfl⟩, nofun⟩⟩)
  have hshown : ["%d", "7"].map Except.ok = shown.map (Except.ok : String → Except Fault String) :=
    hshown
  rw [← (List.map_inj_right fun _ _ h => Except.ok.inj h).1 hshown] at heval
  exact ⟨hname, heval⟩

/-- No placeholder, and an argument with one digit too many. -/
def longArgument : FormatText where
  format := "done"
  arguments := [⟨.literal, .text (Literal.ones 4301)⟩]
  resultVariable := some "r"

/-- An argument that nothing asks for can keep a format from being filled. -/
theorem eval_longArgument :
    validName? longArgument.resultVariable = some "r" ∧
      (⟨"done".toList, []⟩ : Layout).Splits longArgument.format.toList ∧
      ∃ f d', longArgument.eval ⟨{}, none⟩ ⟨{}, nestingLimit, #[]⟩ = .error f d' := by
  have hname : validName? longArgument.resultVariable = some "r" := by decide
  refine ⟨hname, Layout.splits_iff.2 (by decide), ?_⟩
  have hbad : ∃ source ∈ longArgument.arguments, source.Unreadable nestingLimit :=
    ⟨_, List.mem_singleton_self _, rfl, _, _, rfl, Literal.read_ones nestingLimit (by decide)⟩
  obtain ⟨-, f, d', hargs⟩ | ⟨hgood, -⟩ :=
    Source.resolveAll_cases ⟨{}, none⟩ longArgument.arguments ⟨{}, nestingLimit, #[]⟩
  · exact ⟨f, d', eval_of_unreadable hname hargs⟩
  · exact absurd hbad hgood

end FormatText

end NodeScript
