import PromptChain.Action.Extract
import PromptChain.Proofs.ExpandedSteps
import PromptChain.Proofs.TidiedPlaceholders

/-! Expanding directives leaves the structure of a text alone: its placeholders, unless a directive
stands in their names, and its flags. -/
namespace PromptChain

namespace Directive

section Placeholders

/-- An expansion that neither opens nor closes a placeholder with what stands beside it, and that
closes no name in which it stands, since a line feed comes before its first brace. -/
structure Inert (expansion : Text) : Prop where
  tame : expansion.Tame
  feed : (expansion.dropWhile isNameCharacter).head? = some '\n'

variable {tokens : List Text} {expand : Text → Text}
  (hnames : ∀ token ∈ tokens, isName token = true) (hinert : ∀ token ∈ tokens, Inert (expand token))

theorem Inert.dropWhile_append {expansion : Text} (h : Inert expansion) (t : Text) :
    ((expansion ++ t).dropWhile isNameCharacter).head? = some '\n' := by
  have hne : expansion.dropWhile isNameCharacter ≠ [] := by
    intro hnil
    have hfeed := h.feed
    rw [hnil] at hfeed
    cases hfeed
  rw [List.dropWhile_append, if_neg (by simpa [List.isEmpty_iff] using hne),
    List.head?_append_of_ne_nil _ hne]
  exact h.feed

include hnames in
theorem leading?_eq_none {c : Char} (hc : isNameCharacter c = false) (t : Text) :
    leading? tokens (c :: t) = none := by
  refine leading?_cons_of_notMem (fun token ht hm => ?_) t
  rw [List.all_eq_true.1 (hnames token ht) c hm] at hc
  cases hc

include hinert in
/-- A token that is replaced cannot be followed by a brace without a line feed between. -/
theorem leading?_eq_none_of_replace {t name rest : Text} {c : Char}
    (hname : isName name = true) (hc : isNameCharacter c = false) (hfeed : c ≠ '\n')
    (h : replace tokens expand t = name ++ c :: rest) : leading? tokens t = none := by
  cases hl : leading? tokens t with
  | none => rfl
  | some found =>
    obtain ⟨token, more⟩ := found
    have hhead := (hinert token (of_leading? hl).1).dropWhile_append (replace tokens expand more)
    rw [← replace_of_some hl, h, List.dropWhile_append_of_pos (List.all_eq_true.1 hname),
      List.dropWhile_cons_of_neg (by simp [hc])] at hhead
    exact absurd (Option.some.inj hhead) hfeed

include hinert in
theorem exists_of_replace_eq_cons {t rest : Text} {c : Char} (hc : isNameCharacter c = false)
    (hfeed : c ≠ '\n') (h : replace tokens expand t = c :: rest) :
    ∃ more, t = c :: more ∧ replace tokens expand more = rest := by
  have hempty : isName [] = true := rfl
  have hnone := leading?_eq_none_of_replace hinert hempty hc hfeed h
  cases t with
  | nil =>
    rw [replace_nil] at h
    cases h
  | cons d t =>
    rw [replace_cons_of_none hnone] at h
    obtain ⟨rfl, rfl⟩ := List.cons.inj h
    exact ⟨t, rfl, rfl⟩

include hinert in
/-- A closed name in what a replacement gives stood in the text, and no token in it. -/
theorem exists_of_replace_eq_append {t name rest : Text} (hname : isName name = true)
    (h : replace tokens expand t = name ++ '}' :: rest) :
    ∃ more, t = name ++ '}' :: more ∧ replace tokens expand more = rest ∧
      ∀ token ∈ tokens, token ≠ [] → token.has name = false := by
  induction name generalizing t with
  | nil =>
    obtain ⟨more, ht, hmore⟩ := exists_of_replace_eq_cons hinert rfl (by decide) h
    exact ⟨more, ht, hmore, fun token _ hne => Text.has_nil hne⟩
  | cons d name ih =>
    have hnone := leading?_eq_none_of_replace hinert hname rfl (by decide) h
    have hrest : isName name = true := (Bool.and_eq_true_iff.1 hname).2
    cases t with
    | nil =>
      rw [replace_nil] at h
      cases h
    | cons c t =>
      rw [replace_cons_of_none hnone] at h
      obtain ⟨rfl, htail⟩ := List.cons.inj h
      obtain ⟨more, rfl, hmore, hhas⟩ := ih hrest htail
      refine ⟨more, rfl, hmore, fun token ht hne => ?_⟩
      have hafter : Text.after? token (c :: name) = none := by
        rw [Option.eq_none_iff_forall_ne_some]
        intro u hu
        have hlong : Text.after? token (c :: name ++ '}' :: more) = some (u ++ '}' :: more) := by
          rw [Text.after?_eq_some_iff.1 hu, List.append_assoc, Text.after?_append]
        rw [List.cons_append, after?_of_leading?_eq_none hnone ht hne] at hlong
        cases hlong
      rw [Text.has_cons, hafter, hhas token ht hne]
      rfl

include hinert in
/-- A placeholder of what a replacement gives is one of the text without a token in its name. -/
theorem exists_of_placeholder?_replace {t name rest : Text}
    (h : Text.placeholder? (replace tokens expand t) = some (name, rest)) :
    ∃ more, Text.placeholder? t = some (name, more) ∧ replace tokens expand more = rest ∧
      ∀ token ∈ tokens, token ≠ [] → token.has name = false := by
  have hname := Text.isName_of_placeholder? h
  have hsource := Text.eq_of_placeholder? h
  rw [Piece.source_placeholder, List.cons_append, List.cons_append, List.append_assoc] at hsource
  obtain ⟨u, rfl, hu⟩ := exists_of_replace_eq_cons hinert rfl (by decide) hsource
  obtain ⟨v, rfl, hv⟩ := exists_of_replace_eq_cons hinert rfl (by decide) hu
  obtain ⟨w, rfl, hw, hhas⟩ := exists_of_replace_eq_append hinert hname hv
  obtain ⟨more, rfl, hmore⟩ := exists_of_replace_eq_cons hinert rfl (by decide) hw
  refine ⟨more, ?_, hmore, hhas⟩
  have hplaceholder := Text.placeholder?_source_append hname more
  rwa [Piece.source_placeholder, List.cons_append, List.cons_append, List.append_assoc]
    at hplaceholder

include hnames in
theorem replace_name_append {name : Text} (hhas : ∀ token ∈ tokens, token.has name = false)
    (rest : Text) : replace tokens expand (name ++ ['}', '}'] ++ rest) =
      name ++ ['}', '}'] ++ replace tokens expand rest := by
  have hclose : isNameCharacter '}' = false := rfl
  have hbars : Bars tokens ('}' :: '}' :: rest) := by
    intro token ht t
    refine Text.after?_append_cons (fun hm => ?_) t _
    rw [List.all_eq_true.1 (hnames token ht) _ hm] at hclose
    cases hclose
  rw [List.append_assoc, List.append_assoc]
  change replace tokens expand (name ++ '}' :: '}' :: rest) =
    name ++ '}' :: '}' :: replace tokens expand rest
  rw [hbars.replace_append, replace_eq_self hhas,
    replace_cons_of_none (leading?_eq_none hnames hclose _),
    replace_cons_of_none (leading?_eq_none hnames hclose _)]

theorem placeholders_name_append {name : Text} (hname : isName name = true) (rest : Text) :
    Text.placeholders ('{' :: (name ++ ['}', '}'] ++ rest)) = rest.placeholders := by
  have hnone : Text.placeholder? ('{' :: (name ++ ['}', '}'] ++ rest)) = none := by
    apply Text.placeholder?_eq_none
    intro u hu
    have hbrace : '{' ∈ name ∨ '}' = '{' := by
      cases name with
      | nil => exact Or.inr (List.cons.inj (List.cons.inj hu).2).1
      | cons c name => exact Or.inl ((List.cons.inj (List.cons.inj hu).2).1 ▸ List.mem_cons_self)
    rcases hbrace with hm | heq
    · cases List.all_eq_true.1 hname _ hm
    · cases heq
  have htame : Text.Tame (name ++ ['}', '}']) := by
    refine Text.tame_of_notMem fun hm => ?_
    rcases List.mem_append.1 hm with hm | hm
    · cases List.all_eq_true.1 hname _ hm
    · exact absurd hm (by decide)
  rw [Text.placeholders_of_none hnone, htame.placeholders_append]

include hnames hinert in
/-- A replacement keeps the placeholders in whose names no token stands, and makes no others. -/
theorem placeholders_replace (hne : ∀ token ∈ tokens, token ≠ []) (t : Text) :
    (replace tokens expand t).placeholders =
      t.placeholders.filter fun name => tokens.all fun token => !token.has name := by
  fun_induction replace tokens expand t with
  | case1 t token rest hl ih =>
    obtain ⟨hm, -, rfl⟩ := of_leading? hl
    have htoken : Text.Tame token := by
      refine Text.tame_of_notMem fun hbrace => ?_
      cases List.all_eq_true.1 (hnames token hm) _ hbrace
    rw [(hinert token hm).tame.placeholders_append, htoken.placeholders_append, ih]
  | case2 => rw [Text.placeholders_nil]; rfl
  | case3 c rest hl ih =>
    cases hp : Text.placeholder? (c :: rest) with
    | none =>
      have hnone : Text.placeholder? (c :: replace tokens expand rest) = none := by
        rw [← replace_cons_of_none hl, Option.eq_none_iff_forall_ne_some]
        rintro ⟨name, after⟩ hsome
        obtain ⟨more, hmore, -⟩ := exists_of_placeholder?_replace hinert hsome
        rw [hp] at hmore
        cases hmore
      rw [Text.placeholders_of_none hnone, Text.placeholders_of_none hp, ih]
    | some found =>
      obtain ⟨name, more⟩ := found
      have hname := Text.isName_of_placeholder? hp
      have hsource := Text.eq_of_placeholder? hp
      rw [Piece.source_placeholder, List.cons_append, List.cons_append] at hsource
      obtain ⟨rfl, rfl⟩ := List.cons.inj hsource
      have hbrace : isNameCharacter '{' = false := rfl
      have hinner : replace tokens expand ('{' :: (name ++ ['}', '}'] ++ more)) =
          '{' :: replace tokens expand (name ++ ['}', '}'] ++ more) :=
        replace_cons_of_none (leading?_eq_none hnames hbrace _)
      rw [placeholders_name_append hname] at ih
      rw [Text.placeholders_of_some hp, List.filter_cons]
      split_ifs with hall
      · -- The name is kept as it is, and the braces around it.
        have hhas : ∀ token ∈ tokens, token.has name = false := by simpa using hall
        rw [replace_name_append hnames hhas] at hinner
        have hkept : Text.placeholder?
            ('{' :: replace tokens expand ('{' :: (name ++ ['}', '}'] ++ more))) =
              some (name, replace tokens expand more) := by
          rw [hinner]
          exact Text.placeholder?_source_append hname _
        rw [hinner, placeholders_name_append hname] at ih
        rw [Text.placeholders_of_some hkept, ih]
      · -- The expansion in the name takes the placeholder away.
        have hnone : Text.placeholder?
            ('{' :: replace tokens expand ('{' :: (name ++ ['}', '}'] ++ more))) = none := by
          rw [← replace_cons_of_none hl, Option.eq_none_iff_forall_ne_some]
          rintro ⟨other, after⟩ hsome
          obtain ⟨later, hlater, -, hhas⟩ := exists_of_placeholder?_replace hinert hsome
          rw [hp] at hlater
          cases hlater
          apply hall
          rw [List.all_eq_true]
          intro token ht
          rw [hhas token ht (hne token ht)]
          rfl
        rw [Text.placeholders_of_none hnone, ih]

end Placeholders

section Flags

/-- No end of the first text is a start of the second one or starts with it. -/
def Unlinked (s t : Text) : Prop :=
  ∀ u, u <:+ s → u ≠ [] → ¬u <+: t ∧ ¬t <+: u

instance (s t : Text) : Decidable (Unlinked s t) :=
  decidable_of_iff (∀ u ∈ s.tails, u ≠ [] → ¬u <+: t ∧ ¬t <+: u) (by simp [Unlinked])

variable {tokens : List Text} {expand : Text → Text} {marker : Text}

theorem Unlinked.after?_append {s t u : Text} (h : Unlinked s t) (hu : u <:+ s) (hne : u ≠ [])
    (rest : Text) : Text.after? t (u ++ rest) = none := by
  rw [Option.eq_none_iff_forall_ne_some]
  intro more hmore
  have htext : t <+: u ++ rest := ⟨more, (Text.after?_eq_some_iff.1 hmore).symm⟩
  obtain ⟨hstart, hend⟩ := h u hu hne
  rcases List.prefix_or_prefix_of_prefix htext (List.prefix_append u rest) with hp | hp
  · exact hend hp
  · exact hstart hp

theorem Unlinked.has_append {s : Text} (h : Unlinked s marker) (rest : Text) :
    Text.has marker (s ++ rest) = Text.has marker rest := by
  have hends : ∀ u, u <:+ s → Text.has marker (u ++ rest) = Text.has marker rest := by
    intro u hu
    induction u with
    | nil => rfl
    | cons c u ih =>
      have hnone := h.after?_append hu (List.cons_ne_nil c u) rest
      rw [List.cons_append] at hnone ⊢
      rw [Text.has_cons, hnone, ih ((List.suffix_cons c u).trans hu)]
      rfl
  exact hends s List.suffix_rfl

theorem replace_append_of_unlinked (h : ∀ token ∈ tokens, Unlinked marker token) (rest : Text) :
    replace tokens expand (marker ++ rest) = marker ++ replace tokens expand rest := by
  have hends : ∀ u, u <:+ marker →
      replace tokens expand (u ++ rest) = u ++ replace tokens expand rest := by
    intro u hu
    induction u with
    | nil => rfl
    | cons c u ih =>
      have hnone : leading? tokens (c :: (u ++ rest)) = none := by
        rw [Option.eq_none_iff_forall_ne_some]
        rintro ⟨token, more⟩ hsome
        obtain ⟨hm, -, htext⟩ := of_leading? hsome
        have hafter := (h token hm).after?_append hu (List.cons_ne_nil c u) rest
        rw [List.cons_append, htext, Text.after?_append] at hafter
        cases hafter
      rw [List.cons_append, replace_cons_of_none hnone, ih ((List.suffix_cons c u).trans hu),
        List.cons_append]
  exact hends marker List.suffix_rfl

/-- A replacement neither makes nor breaks a marker that has no part in common with a token. -/
theorem has_replace (hm : marker ≠ []) (hforeign : ∀ token ∈ tokens, Foreign marker (expand token))
    (hmarker : ∀ token ∈ tokens, Unlinked marker token)
    (htokens : ∀ token ∈ tokens, Unlinked token marker) (t : Text) :
    Text.has marker (replace tokens expand t) = Text.has marker t := by
  rw [Bool.eq_iff_iff]
  constructor
  · intro h
    obtain ⟨s, ⟨front, rfl⟩, hstart, -⟩ := exists_suffix_of_has_replace hm hforeign h
    obtain ⟨rest, hrest⟩ := Option.isSome_iff_exists.1 hstart
    exact Text.has_append_of_has front (Text.has_of_after? hrest)
  · intro h
    fun_induction replace tokens expand t with
    | case1 t token rest hl ih =>
      obtain ⟨ht, -, rfl⟩ := of_leading? hl
      rw [(htokens token ht).has_append] at h
      exact Text.has_append_of_has _ (ih h)
    | case2 => exact h
    | case3 c rest hl ih =>
      rw [Text.has_cons, Bool.or_eq_true] at h
      rcases h with hstart | h
      · obtain ⟨more, hmore⟩ := Option.isSome_iff_exists.1 hstart
        rw [← replace_cons_of_none hl, Text.after?_eq_some_iff.1 hmore,
          replace_append_of_unlinked hmarker]
        exact Text.has_of_after? (Text.after?_append marker _)
      · rw [Text.has_cons, ih h, Bool.or_true]

theorem has_expand {table : List Directive} (hm : marker.Solid)
    (hforeign : ∀ d ∈ table, Foreign marker d.expansion)
    (hlinks : ∀ d ∈ table, Unlinked marker d.token ∧ Unlinked d.token marker) (t : Text) :
    Text.has marker (Directive.expand table t) = Text.has marker t := by
  rw [Directive.expand, has_tidy hm]
  refine has_replace hm.1 (fun token ht => ?_) (fun token ht => ?_) (fun token ht => ?_) t
  · obtain ⟨d, hd, he⟩ := exists_expansionOf_eq ht
    rw [he]
    exact hforeign d hd
  · obtain ⟨d, hd, rfl⟩ := exists_of_mem_tokens ht
    exact (hlinks d hd).1
  · obtain ⟨d, hd, rfl⟩ := exists_of_mem_tokens ht
    exact (hlinks d hd).2

end Flags

theorem placeholders_expand {table : List Directive} (h : Stepwise table)
    (hnames : ∀ d ∈ table, isName d.token = true) (hinert : ∀ d ∈ table, Inert d.expansion)
    (t : Text) : (expand table t).placeholders =
      (t.placeholders.filter fun name => table.all fun d => !d.token.has name).map squeeze := by
  have hall : ∀ name, ((tokens table).all fun token => !token.has name) =
      table.all fun d => !d.token.has name := by
    intro name
    rw [tokens, (List.mergeSort_perm _ _).all_eq, List.all_map]
    rfl
  rw [expand, placeholders_tidy, placeholders_replace, funext hall]
  · intro token ht
    obtain ⟨d, hd, rfl⟩ := exists_of_mem_tokens ht
    exact hnames d hd
  · intro token ht
    obtain ⟨d, hd, he⟩ := exists_expansionOf_eq ht
    rw [he]
    exact hinert d hd
  · intro token ht
    exact (h.solid_of_mem ht).1

theorem inert_standard : ∀ d ∈ standard, Inert d.expansion := by
  have hchecked : ∀ d ∈ standard, Text.has ['{', '{'] d.expansion = false ∧
      (d.expansion.dropWhile isNameCharacter).head? = some '\n' := by
    unfold standard strings numbers booleans dates objects twoKeys threeKeys mixedObjects
      nestedObjects arrayObjects mixed
    repeat rw [String.toList_ofList]
    decide +kernel
  intro d hd
  obtain ⟨hbraces, hfeed⟩ := hchecked d hd
  refine ⟨⟨fun hrun => ?_, fun hlast => ?_⟩, hfeed⟩
  · obtain ⟨front, back, htext⟩ := hrun
    rw [← htext, List.append_assoc,
      Text.has_append_of_has front (Text.has_of_after? (Text.after?_append _ back))] at hbraces
    cases hbraces
  · obtain ⟨-, -, hend, -, -⟩ := prose_standard d hd
    rw [hlast] at hend
    cases hend

theorem has_expand_standard {marker : Text} (hm : marker.Solid)
    (hstart : (Text.after? ['-', '-'] marker).isSome = true)
    (hends : marker.any ['O', 'P', '.', ']'].contains = false)
    (hlinks : ∀ d ∈ standard, Unlinked marker d.token ∧ Unlinked d.token marker) (t : Text) :
    Text.has marker (expand standard t) = Text.has marker t :=
  has_expand hm (fun d hd => (prose_standard d hd).foreign_of_hyphens hstart hends) hlinks t

/-- The standard directives are transparent to placeholders and flags: of the placeholders of a
source those are left in whose names no token stands, in their order and with single gaps in their
names, and the rules that its flags set are the same. -/
theorem expand_standard_transparent (source : Text) :
    List.Forall₂ SingleGaps
        (source.placeholders.filter fun name => standard.all fun d => !d.token.has name)
        (expand standard source).placeholders ∧
      Rules.ofText (expand standard source) = Rules.ofText source := by
  have hnames : ∀ d ∈ standard, isName d.token = true := by decide
  constructor
  · rw [placeholders_expand stepwise_standard hnames inert_standard source]
    exact forall₂_singleGaps _
  · have hhidden : Text.has "--hide-item-from-list".toList (expand standard source) =
        Text.has "--hide-item-from-list".toList source :=
      has_expand_standard (by decide) (by decide) (by decide) (by decide) source
    have hprompt : Text.has "--is-ai-prompt".toList (expand standard source) =
        Text.has "--is-ai-prompt".toList source :=
      has_expand_standard (by decide) (by decide) (by decide) (by decide) source
    rw [Rules.ofText, hhidden, hprompt]
    rfl

end Directive

end PromptChain
