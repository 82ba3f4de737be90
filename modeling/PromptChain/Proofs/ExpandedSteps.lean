import PromptChain.Proofs.Compilation
import PromptChain.Proofs.Markers

/-! Expanding a script is expanding its steps, and an expanded script has nothing left to expand. -/
namespace PromptChain

namespace Directive

/-- An expansion that cannot be a part of a marker: the marker does not stand in it, and it starts and
ends with characters that are not in the marker. -/
def Foreign (marker expansion : Text) : Prop :=
  expansion ≠ [] ∧ (∀ c ∈ expansion.head?, c ∉ marker) ∧ (∀ c ∈ expansion.getLast?, c ∉ marker) ∧
    Text.has marker expansion = false

section Marker

variable {tokens : List Text} {expand : Text → Text} {marker : Text}

theorem Foreign.has_append {expansion : Text} (hm : marker ≠ []) (h : Foreign marker expansion)
    (t : Text) : Text.has marker (expansion ++ t) = Text.has marker t := by
  obtain ⟨hne, -, hlast, hhas⟩ := h
  obtain ⟨front, c, rfl⟩ : ∃ front c, expansion = front ++ [c] :=
    ⟨_, _, (List.dropLast_concat_getLast hne).symm⟩
  have hc : c ∉ marker := hlast c (by simp)
  rw [Text.has_append_cons hm hc, Bool.or_eq_false_iff] at hhas
  rw [List.append_assoc, List.singleton_append, Text.has_append_cons hm hc, hhas.1, Bool.false_or]

/-- A marker at the start of what a replacement gives stood at the start of the text. -/
theorem isSome_after?_of_replace
    (h : ∀ token ∈ tokens, expand token ≠ [] ∧ ∀ c ∈ (expand token).head?, c ∉ marker) {t : Text}
    (ha : (Text.after? marker (replace tokens expand t)).isSome = true) :
    (Text.after? marker t).isSome = true := by
  induction marker generalizing t with
  | nil => rfl
  | cons m marker ih =>
    cases hl : leading? tokens t with
    | some found =>
      -- The text would start with an expansion, and the marker with its first character.
      obtain ⟨token, rest⟩ := found
      obtain ⟨hne, hhead⟩ := h token (of_leading? hl).1
      obtain ⟨c, more, hc⟩ := List.exists_cons_of_ne_nil hne
      have hcm : m ≠ c := by
        rintro rfl
        exact hhead m (by simp [hc]) List.mem_cons_self
      rw [replace_of_some hl, hc, List.cons_append, Text.after?, if_neg hcm] at ha
      cases ha
    | none =>
      cases t with
      | nil =>
        rw [replace_nil] at ha
        cases ha
      | cons c t =>
        rw [replace_cons_of_none hl, Text.after?] at ha
        rw [Text.after?]
        split_ifs at ha ⊢
        · refine ih (fun token ht => ?_) ha
          obtain ⟨hne, hhead⟩ := h token ht
          exact ⟨hne, fun d hd hm => hhead d hd (List.mem_cons_of_mem m hm)⟩
        · cases ha

/-- A marker that stands in what a replacement gives stood in the text, at a place where no token
was replaced. -/
theorem exists_suffix_of_has_replace (hm : marker ≠ [])
    (h : ∀ token ∈ tokens, Foreign marker (expand token)) {t : Text}
    (hhas : Text.has marker (replace tokens expand t) = true) :
    ∃ s, s <:+ t ∧ (Text.after? marker s).isSome = true ∧ leading? tokens s = none := by
  fun_induction replace tokens expand t with
  | case1 t token rest hl ih =>
    rw [(h token (of_leading? hl).1).has_append hm] at hhas
    obtain ⟨s, hs, hstart, hnone⟩ := ih hhas
    exact ⟨s, hs.trans ⟨token, (of_leading? hl).2.2.symm⟩, hstart, hnone⟩
  | case2 =>
    rw [Text.has_nil hm] at hhas
    cases hhas
  | case3 c rest hl ih =>
    rw [Text.has_cons, Bool.or_eq_true] at hhas
    rcases hhas with hstart | hhas
    · rw [← replace_cons_of_none hl] at hstart
      have hheads : ∀ token ∈ tokens, expand token ≠ [] ∧
          ∀ d ∈ (expand token).head?, d ∉ marker := fun token ht => ⟨(h token ht).1, (h token ht).2.1⟩
      exact ⟨c :: rest, List.suffix_rfl, isSome_after?_of_replace hheads hstart, hl⟩
    · obtain ⟨s, hs, hstart, hnone⟩ := ih hhas
      exact ⟨s, hs.trans (List.suffix_cons c rest), hstart, hnone⟩

end Marker

section Blanks

variable {tokens : List Text} (h : ∀ token ∈ tokens, token.Solid) (expand : Text → Text)
include h

theorem replace_of_allBlank {blanks : Text} (hb : blanks.allBlank = true) :
    replace tokens expand blanks = blanks :=
  replace_eq_self fun token ht => (h token ht).has_of_allBlank hb

theorem replace_append_blank {c : Char} (hc : Text.isBlank c = true) (a b : Text) :
    replace tokens expand (a ++ c :: b) =
      replace tokens expand a ++ c :: replace tokens expand b := by
  have hnot : ∀ token ∈ tokens, c ∉ token := fun token ht => (h token ht).notMem_of_isBlank hc
  have hbars : Bars tokens (c :: b) := fun token ht t => Text.after?_append_cons (hnot token ht) t b
  rw [hbars.replace_append, replace_cons_of_none (leading?_cons_of_notMem hnot b)]

theorem replace_append_of_allBlank {blanks : Text} (hb : blanks.allBlank = true) (t : Text) :
    replace tokens expand (t ++ blanks) = replace tokens expand t ++ blanks := by
  cases blanks with
  | nil => rw [List.append_nil, List.append_nil]
  | cons c blanks =>
    obtain ⟨hc, hb⟩ := Text.allBlank_cons.1 hb
    rw [replace_append_blank h expand hc, replace_of_allBlank h expand hb]

theorem replace_of_allBlank_append {blanks : Text} (hb : blanks.allBlank = true) (t : Text) :
    replace tokens expand (blanks ++ t) = blanks ++ replace tokens expand t := by
  induction blanks with
  | nil => rfl
  | cons c blanks ih =>
    obtain ⟨hc, hb⟩ := Text.allBlank_cons.1 hb
    have hhead := replace_append_blank h expand hc [] (blanks ++ t)
    rw [replace_nil] at hhead
    exact hhead.trans (congrArg (c :: ·) (ih hb))

end Blanks

/-- A table by which a script can be expanded step by step: tokens have no blanks and nothing in
common with a separator beside them, and no expansion can be a part of a separator or a token. -/
structure Stepwise (table : List Directive) : Prop where
  solid : ∀ d ∈ table, d.token.Solid
  clear : ∀ d ∈ table, Clear d.token
  separators : ∀ d ∈ table, Foreign Step.separator d.expansion
  tokens : ∀ d ∈ table, ∀ other ∈ table, Foreign other.token d.expansion

namespace Stepwise

variable {table : List Directive} (h : Stepwise table)
include h

theorem solid_of_mem {token : Text} (ht : token ∈ Directive.tokens table) : token.Solid := by
  obtain ⟨d, hd, rfl⟩ := exists_of_mem_tokens ht
  exact h.solid d hd

/-- Blanks at the ends of a text make no difference to its expansion. -/
theorem expand_trim (t : Text) : expand table t.trim = expand table t := by
  have hsolid : ∀ token ∈ Directive.tokens table, token.Solid := fun _ => h.solid_of_mem
  obtain ⟨blanks, hb, hend⟩ := Text.exists_trimEnd_append t.trimStart
  have hstart : t.takeWhile Text.isBlank ++ t.trimStart = t := List.takeWhile_append_dropWhile
  have hfront : Text.allBlank (t.takeWhile Text.isBlank) = true := List.all_takeWhile
  have hright : expand table t.trimStart = expand table t.trim := by
    rw [hend, expand, replace_append_of_allBlank hsolid _ hb]
    exact tidy_congr_trimEnd (Text.trimEnd_append_of_allBlank hb _)
  have hleft : expand table t = expand table t.trimStart := by
    rw [← hstart, expand, replace_of_allBlank_append hsolid _ hfront, ← tidy_trimStart,
      Text.trimStart_append_of_allBlank hfront, tidy_trimStart, hstart]
    rfl
  rw [hleft, hright]

theorem has_token_expand {d : Directive} (hd : d ∈ table) (t : Text) :
    Text.has d.token (expand table t) = false := by
  have hne : d.token ≠ [] := (h.solid d hd).1
  rw [expand, has_tidy (h.solid d hd), Bool.eq_false_iff]
  intro hhas
  have hforeign : ∀ token ∈ Directive.tokens table,
      Foreign d.token (expansionOf table token) := by
    intro token ht
    obtain ⟨other, ho, he⟩ := exists_expansionOf_eq ht
    rw [he]
    exact h.tokens other ho d hd
  obtain ⟨s, -, hstart, hnone⟩ := exists_suffix_of_has_replace hne hforeign hhas
  have hmem : d.token ∈ Directive.tokens table :=
    List.mem_mergeSort.2 (List.mem_map_of_mem hd)
  rw [after?_of_leading?_eq_none hnone hmem hne] at hstart
  cases hstart

/-- An expanded text has nothing left to expand. -/
theorem expand_expand (t : Text) : expand table (expand table t) = expand table t := by
  rw [expand_eq_tidy fun d hd => h.has_token_expand hd t]
  exact tidy_tidy _

theorem has_separator_expand {t : Text} (ht : Step.separator.has t = false) :
    Step.separator.has (expand table t) = false := by
  rw [expand, has_tidy Text.solid_separator, Bool.eq_false_iff]
  intro hhas
  have hforeign : ∀ token ∈ Directive.tokens table,
      Foreign Step.separator (expansionOf table token) := by
    intro token htoken
    obtain ⟨d, hd, he⟩ := exists_expansionOf_eq htoken
    rw [he]
    exact h.separators d hd
  obtain ⟨s, ⟨front, hs⟩, hstart, -⟩ :=
    exists_suffix_of_has_replace Text.solid_separator.1 hforeign hhas
  obtain ⟨rest, hrest⟩ := Option.isSome_iff_exists.1 hstart
  have hstands := Text.has_append_of_has front (Text.has_of_after? hrest)
  rw [hs, ht] at hstands
  cases hstands

theorem texts_expand_single {t : Text} (ht : Step.separator.has t = false) :
    Step.texts (expand table t) = (Step.texts t).map (expand table) := by
  rw [Step.texts, Step.cut_eq_singleton (h.has_separator_expand ht), Step.texts,
    Step.cut_eq_singleton ht, List.map_singleton, List.map_singleton, List.map_singleton,
    h.expand_trim]
  exact congrArg (fun t => [t]) (Text.trim_trim _)

/-- The steps of an expanded script are the expanded steps of the script. -/
theorem texts_expand (t : Text) :
    Step.texts (expand table t) = (Step.texts t).map (expand table) := by
  induction t using Step.separator_induction with
  | single t ht => exact h.texts_expand_single ht
  | more a b ha ih =>
    rw [texts_expand_append h.clear, Step.texts_append, List.map_append, ih,
      h.texts_expand_single ha]

theorem split_expand (t : Text) : Step.split (expand table t) =
    (Step.split t).map fun step => { step with text := expand table step.text } := by
  rw [Step.split_eq, Step.split_eq, h.texts_expand, List.zipIdx_map, List.map_map, List.map_map]
  rfl

theorem compileWith_expand (t : Text) :
    Script.compileWith table (expand table t) = Script.compileWith table t := by
  unfold Script.compileWith
  rw [h.expand_expand]

end Stepwise

/-- What the expansions of the standard directives have in common. -/
def Prose (t : Text) : Prop :=
  t ≠ [] ∧ t.head?.all ['O', 'P'].contains = true ∧ t.getLast?.all ['.', ']'].contains = true ∧
    Text.has ['-', '-'] t = false ∧ '>' ∉ t

instance (t : Text) : Decidable (Prose t) :=
  inferInstanceAs (Decidable (_ ∧ _ ∧ _ ∧ _ ∧ _))

theorem prose_standard : ∀ d ∈ standard, Prose d.expansion := by
  unfold standard strings numbers booleans dates objects twoKeys threeKeys mixedObjects
    nestedObjects arrayObjects mixed
  -- The literals are taken apart by the lemma: decoding their bytes is slow in the kernel.
  repeat rw [String.toList_ofList]
  decide +kernel

theorem Prose.foreign {t marker : Text} (h : Prose t)
    (hends : marker.any ['O', 'P', '.', ']'].contains = false) (hhas : Text.has marker t = false) :
    Foreign marker t := by
  obtain ⟨hne, hhead, hlast, -, -⟩ := h
  rw [List.any_eq_false] at hends
  refine ⟨hne, fun c hc hm => hends c hm ?_, fun c hc hm => hends c hm ?_, hhas⟩
  · have := (Option.all_eq_true _ _).1 hhead c hc
    grind
  · have := (Option.all_eq_true _ _).1 hlast c hc
    grind

theorem Prose.foreign_of_hyphens {t marker : Text} (h : Prose t)
    (hstart : (Text.after? ['-', '-'] marker).isSome = true)
    (hends : marker.any ['O', 'P', '.', ']'].contains = false) : Foreign marker t := by
  obtain ⟨rest, hrest⟩ := Option.isSome_iff_exists.1 hstart
  refine h.foreign hends (Bool.eq_false_iff.2 fun hhas => ?_)
  have hsome := Text.has_trans (Text.has_of_after? hrest) hhas
  rw [h.2.2.2.1] at hsome
  cases hsome

theorem stepwise_standard : Stepwise standard where
  solid := by decide
  clear := clear_standard
  separators := by
    intro d hd
    have hprose := prose_standard d hd
    exact hprose.foreign (by decide) (Text.has_eq_false_of_notMem (by decide) hprose.2.2.2.2)
  tokens := by
    intro d hd other ho
    have hstart : ∀ e ∈ standard, (Text.after? ['-', '-'] e.token).isSome = true := by decide
    have hends : ∀ e ∈ standard, e.token.any ['O', 'P', '.', ']'].contains = false := by decide
    exact (prose_standard d hd).foreign_of_hyphens (hstart other ho) (hends other ho)

/-- Splitting commutes with expansion: an expanded script has as many steps as the script, and the
text of each step is the expanded text of the step in its place. -/
theorem split_expand_standard (source : Text) : Step.split (expand standard source) =
    (Step.split source).map fun step => { step with text := expand standard step.text } :=
  stepwise_standard.split_expand source

end Directive

/-- An expanded source holds no directive and is its own expansion, so that compiling it gives what
compiling the source gives. -/
theorem Script.compile_expand_standard (source : Text) :
    (∀ d ∈ Directive.standard, d.token.has (Directive.expand Directive.standard source) = false) ∧
      Directive.expand Directive.standard (Directive.expand Directive.standard source) =
        Directive.expand Directive.standard source ∧
      compile (Directive.expand Directive.standard source) = compile source :=
  have h := Directive.stepwise_standard
  ⟨fun _ hd => h.has_token_expand hd source, h.expand_expand source, h.compileWith_expand source⟩

end PromptChain
