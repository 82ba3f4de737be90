import Mathlib.Data.List.TakeWhile
import PromptChain.Proofs.Seams

/-! Filling placeholders in two passes and at once. -/
namespace PromptChain

/-- A filled text, unless a name is undefined. -/
def unlessUndefined : Option Text → Text → Except UndefinedVariable Text
  | some name, _ => .error ⟨name⟩
  | none, t => .ok t

namespace Pass

def isUndefined (pass : Pass) (resolve : Text → Option Value) (name : Text) : Bool :=
  pass.accepts name && !(resolve name).isSome

def text? (pass : Pass) (resolve : Text → Option Value) (name : Text) : Option Text :=
  if pass.accepts name then (resolve name).map Value.promptText else none

end Pass

/-- A pass fails at the first of its names that has no value, and fills the row if there is none. -/
theorem fillPieces_eq (pass : Pass) (resolve : Text → Option Value) (ps : List Piece) :
    fillPieces pass resolve ps =
      unlessUndefined ((Piece.names ps).find? (pass.isUndefined resolve))
        (Text.ofPieces (Piece.fillRow (pass.text? resolve) ps)) := by
  induction ps with
  | nil => rfl
  | cons piece ps ih =>
    cases piece with
    | character c =>
      rw [fillPieces, ih, Piece.names_character, Piece.fillRow_character]
      cases (Piece.names ps).find? (pass.isUndefined resolve) <;> rfl
    | placeholder name =>
      rw [fillPieces, ih, Piece.names_placeholder]
      by_cases ha : pass.accepts name = true
      · cases hv : resolve name with
        | none =>
          have hundefined : pass.isUndefined resolve name = true := by
            simp [Pass.isUndefined, ha, hv]
          rw [List.find?_cons_of_pos hundefined, Piece.fill, if_pos ha, hv]
          rfl
        | some value =>
          have hdefined : ¬pass.isUndefined resolve name = true := by simp [Pass.isUndefined, hv]
          have htext : pass.text? resolve name = some value.promptText := by
            simp [Pass.text?, ha, hv]
          rw [List.find?_cons_of_neg hdefined, Piece.fill, if_pos ha, hv,
            Piece.fillRow_placeholder_some htext, Text.ofPieces_append, Text.ofPieces_characters]
          cases (Piece.names ps).find? (pass.isUndefined resolve) <;> rfl
      · have hleft : ¬pass.isUndefined resolve name = true := by simp [Pass.isUndefined, ha]
        have htext : pass.text? resolve name = none := if_neg ha
        rw [List.find?_cons_of_neg hleft, Piece.fill, if_neg ha,
          Piece.fillRow_placeholder_none htext, Text.ofPieces_cons]
        cases (Piece.names ps).find? (pass.isUndefined resolve) <;> rfl

/-- The value of a name in a prompt: names of outputs have those of the environment, and free names
those of the bindings before them. -/
def valueOf (e : Environment) (bindings : Table Value) (name : Text) : Option Value :=
  if Step.isReference name then e.get? name else (bindings.get? name).or (e.get? name)

/-- The text with each placeholder replaced by its value, all at once. -/
def fillAtOnce (e : Environment) (bindings : Table Value) (t : Text) : Text :=
  Piece.textWith (fun name => ((valueOf e bindings name).map Value.promptText).getD []) t.pieces

/-- The name at which filling a text fails: the first free name that has no value or, if all free
names have one, the first name of an output that has none. -/
def firstUndefined (e : Environment) (bindings : Table Value) (t : Text) : Option Text :=
  (t.placeholders.find? (Pass.free.isUndefined (valueOf e bindings))).or
    (t.placeholders.find? (Pass.step.isUndefined (valueOf e bindings)))

theorem firstUndefined_eq_none_iff {e : Environment} {bindings : Table Value} {t : Text} :
    firstUndefined e bindings t = none ↔
      ∀ name ∈ t.placeholders, (valueOf e bindings name).isSome = true := by
  rw [firstUndefined, Option.or_eq_none_iff, List.find?_eq_none, List.find?_eq_none]
  constructor
  · rintro ⟨hfree, hstep⟩ name hm
    cases hr : Step.isReference name with
    | false => simpa [Pass.isUndefined, hr, Option.isSome_iff_ne_none] using hfree name hm
    | true => simpa [Pass.isUndefined, hr, Option.isSome_iff_ne_none] using hstep name hm
  · intro h
    refine ⟨fun name hm => ?_, fun name hm => ?_⟩ <;>
      simp [Pass.isUndefined, Option.isSome_iff_ne_none.1 (h name hm)]

section

variable {e : Environment} {bindings : Table Value} {t : Text}

/-- The two passes have the values of names between them. -/
theorem render_eq_passes (e : Environment) (bindings : Table Value) (t : Text) :
    render e bindings t =
      (substitute .free (valueOf e bindings) t).bind (substitute .step (valueOf e bindings)) := by
  have hfree : substitute .free (fun name => (bindings.get? name).or (e.get? name)) t =
      substitute .free (valueOf e bindings) t := by
    apply fillPieces_congr
    intro name _ ha
    have hr : Step.isReference name = false := by simpa using ha
    simp [valueOf, hr]
  have hstep : substitute .step (fun name => e.get? name) =
      substitute .step (valueOf e bindings) := by
    funext filled
    apply fillPieces_congr
    intro name _ ha
    have hr : Step.isReference name = true := by simpa using ha
    simp [valueOf, hr]
  rw [render, hfree, hstep]
  rfl

/-- The row that the first pass makes of a text, with the names of outputs left in it. -/
def freeRow (e : Environment) (bindings : Table Value) (t : Text) : List Piece :=
  Piece.fillRow (Pass.free.text? (valueOf e bindings)) t.pieces

/-- Where every name has a value, a row filled at once has characters only. -/
theorem fillRow_eq_fillAtOnce (h : firstUndefined e bindings t = none) :
    Piece.fillRow (fun name => (valueOf e bindings name).map Value.promptText) t.pieces =
      (fillAtOnce e bindings t).map .character := by
  apply Piece.fillRow_eq_characters
  intro name hm
  rw [Option.isSome_map]
  exact firstUndefined_eq_none_iff.1 h name hm

theorem fillRow_freeRow (h : firstUndefined e bindings t = none) :
    Piece.fillRow (Pass.step.text? (valueOf e bindings)) (freeRow e bindings t) =
      (fillAtOnce e bindings t).map .character := by
  have hboth : (fun name => (Pass.free.text? (valueOf e bindings) name).or
      (Pass.step.text? (valueOf e bindings) name)) =
        fun name => (valueOf e bindings name).map Value.promptText := by
    funext name
    cases hr : Step.isReference name <;> simp [Pass.text?, hr]
  rw [freeRow, Piece.fillRow_fillRow, hboth, fillRow_eq_fillAtOnce h]

theorem render_of_undefined_free {name : Text}
    (h : t.placeholders.find? (Pass.free.isUndefined (valueOf e bindings)) = some name) :
    render e bindings t = .error ⟨name⟩ := by
  rw [render_eq_passes, substitute, fillPieces_eq]
  change Except.bind (unlessUndefined (t.placeholders.find? _) _) _ = _
  rw [h]
  rfl

theorem render_of_defined_free
    (h : t.placeholders.find? (Pass.free.isUndefined (valueOf e bindings)) = none) :
    render e bindings t =
      substitute .step (valueOf e bindings) (Text.ofPieces (freeRow e bindings t)) := by
  rw [render_eq_passes, substitute, fillPieces_eq]
  change Except.bind (unlessUndefined (t.placeholders.find? _) _) _ = _
  rw [h]
  rfl

/-- If the first pass hides no placeholder in its row, the two passes fill all names at once. -/
theorem render_of_not_hides
    (h : t.placeholders.find? (Pass.free.isUndefined (valueOf e bindings)) = none →
      ¬Piece.Hides (freeRow e bindings t)) :
    render e bindings t =
      unlessUndefined (firstUndefined e bindings t) (fillAtOnce e bindings t) := by
  cases hfree : t.placeholders.find? (Pass.free.isUndefined (valueOf e bindings)) with
  | some name =>
    rw [render_of_undefined_free hfree, firstUndefined, hfree]
    rfl
  | none =>
    have hnames : ∀ name ∈ Piece.names (freeRow e bindings t), isName name = true := by
      intro name hm
      rw [freeRow, Piece.names_fillRow] at hm
      exact Text.isName_of_mem_placeholders (List.mem_of_mem_filter hm)
    -- The second pass finds the names that the first one has left, and no others.
    have hpieces := Text.pieces_ofPieces hnames (h hfree)
    have hleft : (Piece.names (freeRow e bindings t)).find?
        (Pass.step.isUndefined (valueOf e bindings)) =
          t.placeholders.find? (Pass.step.isUndefined (valueOf e bindings)) := by
      rw [freeRow, Piece.names_fillRow, List.find?_filter]
      congr 1
      funext name
      cases hr : Step.isReference name with
      | false => simp [Pass.isUndefined, hr]
      | true => cases hv : valueOf e bindings name <;> simp [Pass.isUndefined, Pass.text?, hr, hv]
    have hundefined : firstUndefined e bindings t =
        t.placeholders.find? (Pass.step.isUndefined (valueOf e bindings)) := by
      rw [firstUndefined, hfree]
      rfl
    rw [render_of_defined_free hfree, substitute, hpieces, fillPieces_eq, hleft, ← hundefined]
    cases hnone : firstUndefined e bindings t with
    | some name => rfl
    | none =>
      rw [fillRow_freeRow hnone, Text.ofPieces_characters]

/-- The texts that the first pass puts in, up to the name at which it fails. -/
def substituted (e : Environment) (bindings : Table Value) (t : Text) : List Text :=
  (t.placeholders.takeWhile fun name => !Pass.free.isUndefined (valueOf e bindings) name).filterMap
    (Pass.free.text? (valueOf e bindings))

theorem mem_substituted (h : t.placeholders.find? (Pass.free.isUndefined (valueOf e bindings)) = none)
    {name text : Text} (hm : name ∈ t.placeholders)
    (ht : Pass.free.text? (valueOf e bindings) name = some text) :
    text ∈ substituted e bindings t := by
  have hall : ∀ other ∈ t.placeholders,
      (!Pass.free.isUndefined (valueOf e bindings) other) = true := by
    intro other ho
    simpa using List.find?_eq_none.1 h other ho
  rw [substituted, List.takeWhile_eq_self_iff.2 hall]
  exact List.mem_filterMap.2 ⟨name, hm, ht⟩

end

/-- Two passes fill a text as one would that fills all names at once, if opening braces of the text
stand alone and no value of a free name has braces. The values of outputs may have any. -/
theorem render_eq_fillAtOnce {e : Environment} {bindings : Table Value} {t : Text}
    (ht : Piece.Separated t.pieces) (hv : ∀ text ∈ substituted e bindings t, '{' ∉ text ∧ '}' ∉ text) :
    render e bindings t =
        unlessUndefined (firstUndefined e bindings t) (fillAtOnce e bindings t) ∧
      ((∃ prompt, render e bindings t = .ok prompt) ↔
        ∀ name ∈ t.placeholders, (valueOf e bindings name).isSome = true) := by
  have hrender : render e bindings t =
      unlessUndefined (firstUndefined e bindings t) (fillAtOnce e bindings t) := by
    apply render_of_not_hides
    intro hdefined
    apply Piece.not_hides_of_isChain
    apply Piece.isChain_fillRow ht.isChain
    intro name hm text htext
    exact Text.tame_of_notMem (hv text (mem_substituted hdefined hm htext)).1
  refine ⟨hrender, ?_⟩
  rw [hrender, ← firstUndefined_eq_none_iff]
  cases firstUndefined e bindings t <;> simp [unlessUndefined]

/-- An environment in which the output of a step spells a placeholder. -/
def spelledInOutput : Environment :=
  .ofList [("step_1".toList, .string "{{x}}".toList), ("x".toList, .string "v".toList)]

theorem separated_loneBraces : Piece.Separated (Text.pieces "{a} {{x}}{{step_1}}\x7b".toList) := by
  have hsegments : Piece.segments (Text.pieces "{a} {{x}}{{step_1}}\x7b".toList) =
      ["{a} ".toList, [], "\x7b".toList] := by cbv
  constructor <;> rw [hsegments] <;> decide

theorem render_eq_fillAtOnce_shadowed :
    Piece.Separated (Text.pieces "{a} {{x}}{{step_1}}\x7b".toList) ∧
      (∀ text ∈ substituted spelledInOutput (.ofList [("x".toList, .string "b".toList)])
        "{a} {{x}}{{step_1}}\x7b".toList, '{' ∉ text ∧ '}' ∉ text) ∧
      render spelledInOutput (.ofList [("x".toList, .string "b".toList)])
        "{a} {{x}}{{step_1}}\x7b".toList = .ok "{a} b{{x}}\x7b".toList := by
  have hvalues : ∀ text ∈ substituted spelledInOutput (.ofList [("x".toList, .string "b".toList)])
      "{a} {{x}}{{step_1}}\x7b".toList, '{' ∉ text ∧ '}' ∉ text := by
    have hsubstituted : substituted spelledInOutput (.ofList [("x".toList, .string "b".toList)])
        "{a} {{x}}{{step_1}}\x7b".toList = ["b".toList] := by decide +kernel
    rw [hsubstituted]
    decide
  have hfilled : unlessUndefined
      (firstUndefined spelledInOutput (.ofList [("x".toList, .string "b".toList)])
        "{a} {{x}}{{step_1}}\x7b".toList)
      (fillAtOnce spelledInOutput (.ofList [("x".toList, .string "b".toList)])
        "{a} {{x}}{{step_1}}\x7b".toList) = .ok "{a} b{{x}}\x7b".toList := by
    decide +kernel
  exact ⟨separated_loneBraces, hvalues,
    (render_eq_fillAtOnce separated_loneBraces hvalues).1.trans hfilled⟩

/-- Filling the free names of a text brings in a placeholder, spelled by characters of the text and
of values. -/
def BringsIn (e : Environment) (bindings : Table Value) (t name : Text) : Prop :=
  isName name = true ∧ (Piece.placeholder name).source.map .character <:+: freeRow e bindings t

def Text.outside (t : Text) : Text :=
  Piece.textWith (fun _ => []) t.pieces

section

variable {e : Environment} {bindings : Table Value} {t : Text}

/-- A free name that the first pass brings in is left by the second one. -/
theorem mem_placeholders_of_bringsIn (hdefined : firstUndefined e bindings t = none) {name : Text}
    (hname : BringsIn e bindings t name) (hr : Step.isReference name = false) {prompt : Text}
    (hp : render e bindings t = .ok prompt) : name ∈ prompt.placeholders := by
  obtain ⟨hisName, hrun⟩ := hname
  have hsource : (Piece.placeholder name).source <:+: Text.ofPieces (freeRow e bindings t) := by
    have htext := hrun.flatMap Piece.source
    change Text.ofPieces _ <:+: Text.ofPieces _ at htext
    rwa [Text.ofPieces_characters] at htext
  have hfound : name ∈ (Text.ofPieces (freeRow e bindings t)).placeholders :=
    Text.mem_placeholders_iff.2 ⟨hisName, hsource⟩
  rw [render_of_defined_free (Option.or_eq_none_iff.1 hdefined).1, substitute, fillPieces_eq] at hp
  cases hstep : (Piece.names (Text.ofPieces (freeRow e bindings t)).pieces).find?
      (Pass.step.isUndefined (valueOf e bindings)) with
  | some other =>
    rw [hstep] at hp
    cases hp
  | none =>
    rw [hstep] at hp
    cases hp
    refine Text.mem_placeholders_iff.2 ⟨hisName, Text.source_infix_ofPieces ?_⟩
    rw [Piece.names_fillRow]
    exact List.mem_filter.2 ⟨hfound, by simp [Pass.text?, hr]⟩

theorem render_of_clean (hdefined : firstUndefined e bindings t = none)
    (hclean : (fillAtOnce e bindings t).placeholders = []) :
    render e bindings t = .ok (fillAtOnce e bindings t) := by
  have hhides : ¬Piece.Hides (freeRow e bindings t) := by
    intro hhides
    have hfilled := hhides.fillRow (Pass.step.text? (valueOf e bindings))
    rw [fillRow_freeRow hdefined] at hfilled
    exact Text.placeholders_eq_nil_iff.1 hclean hfilled
  rw [render_of_not_hides fun _ => hhides, hdefined]
  rfl

/-- Only names of outputs that the first pass brings in can make a complete prompt of a text that has
placeholders when it is filled at once. -/
theorem clean_of_render (hdefined : firstUndefined e bindings t = none)
    (hnone : ∀ name, Step.isReference name = true → ¬BringsIn e bindings t name) {prompt : Text}
    (hp : render e bindings t = .ok prompt) (hclean : prompt.placeholders = []) :
    (fillAtOnce e bindings t).placeholders = [] := by
  have hhides : ¬Piece.Hides (freeRow e bindings t) := by
    rintro ⟨name, hname, hrun⟩
    cases hr : Step.isReference name with
    | true => exact hnone name hr ⟨hname, hrun⟩
    | false =>
      have hleft := mem_placeholders_of_bringsIn hdefined ⟨hname, hrun⟩ hr hp
      rw [hclean] at hleft
      cases hleft
  rw [render_of_not_hides fun _ => hhides, hdefined] at hp
  cases hp
  exact hclean

/-- Values without braces leave no placeholder in a text whose own characters spell none. -/
theorem clean_of_outside (ht : t.outside.placeholders = [])
    (hv : ∀ name ∈ t.placeholders, ∀ value, valueOf e bindings name = some value →
      '{' ∉ value.promptText ∧ '}' ∉ value.promptText) :
    (fillAtOnce e bindings t).placeholders = [] := by
  rw [Text.placeholders_eq_nil_iff] at ht ⊢
  intro hhides
  apply ht
  refine Piece.hides_of_textWith ?_ hhides
  intro name hm
  cases hvalue : valueOf e bindings name with
  | none => simp
  | some value => exact hv name hm value hvalue

/-- Values without two opening braces in a row and none at their ends leave no placeholder in a text
whose opening braces stand alone. -/
theorem clean_of_separated (hdefined : firstUndefined e bindings t = none) (ht : Piece.Separated t.pieces)
    (hv : ∀ name ∈ t.placeholders, ∀ value, valueOf e bindings name = some value →
      value.promptText.Tame) :
    (fillAtOnce e bindings t).placeholders = [] := by
  rw [Text.placeholders_eq_nil_iff, ← fillRow_eq_fillAtOnce hdefined]
  apply Piece.not_hides_of_isChain
  apply Piece.isChain_fillRow ht.isChain
  intro name hm text htext
  obtain ⟨value, hvalue, rfl⟩ := Option.map_eq_some_iff.1 htext
  exact hv name hm value hvalue

end

@[simp] theorem valueOf_empty (e : Environment) (name : Text) : valueOf e ∅ name = e.get? name := by
  cases hr : Step.isReference name <;> simp [valueOf, hr]

def FillsCompletely (e : Environment) (t : Text) : Prop :=
  ∃ prompt, render e ∅ t = .ok prompt ∧ prompt.placeholders = []

/-- Where every name of a text has a value, the text is filled completely if filling it at once
leaves no placeholder, and only if so unless the first pass brings in the name of an output. Values
without braces are enough if the text without its placeholders has none, and values without `{{` and
without `{` at the end if opening braces of the text stand alone. -/
theorem render_complete {e : Environment} {t : Text}
    (hbound : ∀ name ∈ t.placeholders, (e.get? name).isSome = true) :
    ((fillAtOnce e ∅ t).placeholders = [] → FillsCompletely e t) ∧
    ((∀ name, Step.isReference name = true → ¬BringsIn e ∅ t name) →
      FillsCompletely e t → (fillAtOnce e ∅ t).placeholders = []) ∧
    (t.outside.placeholders = [] →
      (∀ name ∈ t.placeholders, ∀ value, e.get? name = some value →
        '{' ∉ value.promptText ∧ '}' ∉ value.promptText) →
      FillsCompletely e t) ∧
    (Piece.Separated t.pieces →
      (∀ name ∈ t.placeholders, ∀ value, e.get? name = some value → value.promptText.Tame) →
      FillsCompletely e t) := by
  have hdefined : firstUndefined e ∅ t = none := by
    rw [firstUndefined_eq_none_iff]
    intro name hm
    rw [valueOf_empty]
    exact hbound name hm
  have hfills : (fillAtOnce e ∅ t).placeholders = [] → FillsCompletely e t :=
    fun hclean => ⟨_, render_of_clean hdefined hclean, hclean⟩
  refine ⟨hfills, ?_, ?_, ?_⟩
  · rintro hnone ⟨prompt, hp, hclean⟩
    exact clean_of_render hdefined hnone hp hclean
  · intro ht hv
    exact hfills (clean_of_outside ht (by simpa using hv))
  · intro ht hv
    exact hfills (clean_of_separated hdefined ht (by simpa using hv))

def plainValues : Environment :=
  .ofList [("step_1".toList, .string "w".toList), ("x".toList, .string "v".toList)]

def bracedValues : Environment :=
  .ofList [("step_1".toList, .string "\x7d\x7d".toList), ("x".toList, .string "{v}".toList)]

theorem render_complete_braces :
    (∀ name ∈ Text.placeholders "\x7b\x7b {{x}}{{step_1}}".toList,
        (plainValues.get? name).isSome = true) ∧
      FillsCompletely plainValues "\x7b\x7b {{x}}{{step_1}}".toList ∧
    (∀ name ∈ Text.placeholders "{a} {{x}}{{step_1}}\x7b".toList,
        (bracedValues.get? name).isSome = true) ∧
      FillsCompletely bracedValues "{a} {{x}}{{step_1}}\x7b".toList := by
  have hnames : Text.placeholders "\x7b\x7b {{x}}{{step_1}}".toList =
      ["x".toList, "step_1".toList] := by cbv
  have hbound : ∀ name ∈ Text.placeholders "\x7b\x7b {{x}}{{step_1}}".toList,
      (plainValues.get? name).isSome = true := by
    rw [hnames]
    decide
  have houtside : Text.placeholders (Text.outside "\x7b\x7b {{x}}{{step_1}}".toList) = [] := by cbv
  have hvalues : ∀ name ∈ Text.placeholders "\x7b\x7b {{x}}{{step_1}}".toList, ∀ value,
      plainValues.get? name = some value → '{' ∉ value.promptText ∧ '}' ∉ value.promptText := by
    rw [hnames]
    intro name hm value hv
    rcases List.mem_pair.1 hm with rfl | rfl <;> cases hv <;> decide
  have hnames' : Text.placeholders "{a} {{x}}{{step_1}}\x7b".toList =
      ["x".toList, "step_1".toList] := by cbv
  have hbound' : ∀ name ∈ Text.placeholders "{a} {{x}}{{step_1}}\x7b".toList,
      (bracedValues.get? name).isSome = true := by
    rw [hnames']
    decide
  have htame : ∀ name ∈ Text.placeholders "{a} {{x}}{{step_1}}\x7b".toList, ∀ value,
      bracedValues.get? name = some value → value.promptText.Tame := by
    rw [hnames']
    intro name hm value hv
    rcases List.mem_pair.1 hm with rfl | rfl <;> cases hv <;> constructor <;> decide
  exact ⟨hbound, (render_complete hbound).2.2.1 houtside hvalues,
    hbound', (render_complete hbound').2.2.2 separated_loneBraces htame⟩

/-- The second pass does not fill a placeholder that the output of a step spells. -/
theorem render_incomplete :
    (∀ name ∈ Text.placeholders "{{step_1}} {{x}}".toList,
        (spelledInOutput.get? name).isSome = true) ∧
      render spelledInOutput ∅ "{{step_1}} {{x}}".toList = .ok "{{x}} v".toList ∧
      ¬FillsCompletely spelledInOutput "{{step_1}} {{x}}".toList := by
  have hnames : Text.placeholders "{{step_1}} {{x}}".toList = ["step_1".toList, "x".toList] := by
    cbv
  have hrender : render spelledInOutput ∅ "{{step_1}} {{x}}".toList = .ok "{{x}} v".toList := by
    decide +kernel
  have hleft : Text.placeholders "{{x}} v".toList = ["x".toList] := by cbv
  refine ⟨by rw [hnames]; decide, hrender, ?_⟩
  rintro ⟨prompt, hp, hclean⟩
  rw [hrender] at hp
  cases hp
  rw [hleft] at hclean
  cases hclean

end PromptChain
