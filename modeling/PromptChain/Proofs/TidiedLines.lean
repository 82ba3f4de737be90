import Mathlib.Data.List.Chain
import PromptChain.Proofs.Compilation
import PromptChain.Proofs.InkedLines
import PromptChain.Proofs.JoinedSteps
import PromptChain.Proofs.Markers

/-! What tidying keeps and what it leaves. All characters that are not blank stay, in their order, and
so do the lines that hold them; what is left of the blanks is neat. -/
namespace PromptChain

namespace Directive

theorem ink_squeezeFrom (inGap : Bool) (t : Text) : Text.ink (squeezeFrom inGap t) = Text.ink t := by
  induction t generalizing inGap with
  | nil => rfl
  | cons c t ih =>
    have hspace : Text.isBlank ' ' = true := rfl
    rw [squeezeFrom]
    split_ifs with hc hg
    · rw [ih]
      simp [Text.ink, isBlank_of_isGap hc]
    · have hrest := ih true
      simp only [Text.ink] at hrest ⊢
      simp [isBlank_of_isGap hc, hspace, hrest]
    · have hrest := ih false
      simp only [Text.ink] at hrest ⊢
      simp [List.filter_cons, hrest]

theorem ink_tidyLine (line : Text) : (tidyLine line).ink = line.ink := by
  rw [tidyLine, Text.ink_trimEnd]
  exact ink_squeezeFrom false line

theorem inked_dropRepeatedEmpty (afterEmpty : Bool) (ls : List Text) :
    Text.inked (dropRepeatedEmpty afterEmpty ls) = Text.inked ls := by
  induction ls generalizing afterEmpty with
  | nil => rfl
  | cons line ls ih =>
    rw [dropRepeatedEmpty]
    split_ifs with h
    · have hline : line = [] := List.isEmpty_iff.1 (Bool.and_eq_true_iff.1 h).1
      rw [hline, ih]
      rfl
    · simp only [Text.inked, List.filter_cons] at ih ⊢
      rw [ih]

/-- The lines that hold more than blanks are tidied, and none of them is lost. -/
theorem inked_tidyLines (ls : List Text) :
    Text.inked (tidyLines ls) = (Text.inked ls).map tidyLine := by
  have hblank : (fun l : Text => !l.allBlank) ∘ tidyLine = fun l => !l.allBlank := by
    funext l
    rw [Function.comp, Text.allBlank_congr_ink (ink_tidyLine l)]
  rw [tidyLines, inked_dropRepeatedEmpty, Text.inked, List.filter_map, hblank, ← Text.inked]

theorem ink_tidy (t : Text) : (tidy t).ink = t.ink := by
  have hlines : ((Text.inked t.lines).map tidyLine).flatMap Text.ink =
      (Text.inked t.lines).flatMap Text.ink := by
    rw [List.flatMap_map]
    congr 1
    funext line
    exact ink_tidyLine line
  rw [tidy_eq_trim, Text.ink_trim, tidyBlock, Text.ink_intercalate, ← Text.flatMap_ink_inked,
    inked_tidyLines, hlines, Text.flatMap_ink_inked, Text.flatMap_ink_lines]

/-- The lines of a tidied text are the tidied lines without the empty ones at the ends, and without
the blanks at the start of the first one. -/
theorem lines_tidy (t : Text) :
    (∀ l ∈ tidyLines t.lines, l = []) ∧ (tidy t).lines = [] ∨
      ∃ first others, Text.Framed (tidyLines t.lines) first others ∧
        (tidy t).lines = first.trimStart :: others := by
  rcases Text.exists_framed (tidyLines t.lines) with hempty | ⟨first, others, hframed⟩
  · left
    have hblank : (tidyBlock t).allBlank = true := by
      rw [← Text.trimEnd_eq_nil_iff, tidyBlock, Text.trimEnd_intercalate, Text.trimEnd_eq_nil_iff]
      exact Text.allBlank_closeLines hempty
    rw [tidy_eq_trim, Text.trim_of_allBlank hblank]
    exact ⟨hempty, rfl⟩
  · right
    exact ⟨first, others, hframed, hframed.lines_trim (trimmed_tidyLines t)⟩

theorem trimmed_lines_tidy (t : Text) : Text.Trimmed (tidy t).lines := by
  rcases lines_tidy t with ⟨-, hnil⟩ | ⟨first, others, hframed, hlines⟩
  · rw [hnil]
    exact fun _ hl => absurd hl List.not_mem_nil
  · rw [hlines]
    exact hframed.trimmed (trimmed_tidyLines t)

theorem inked_lines_tidy (t : Text) :
    Text.inked (tidy t).lines = ((Text.inked t.lines).map tidyLine).modifyHead Text.trimStart := by
  rw [← inked_tidyLines]
  rcases lines_tidy t with ⟨hempty, hnil⟩ | ⟨first, others, hframed, hlines⟩
  · have hinked : Text.inked (tidyLines t.lines) = [] := Text.inked_eq_nil hempty
    rw [hnil, hinked]
    rfl
  · have hfirst := hframed.allBlank_trimStart (trimmed_tidyLines t)
    rw [hlines, hframed.inked_eq (trimmed_tidyLines t), Text.inked_cons hfirst]
    rfl

theorem isChain_dropRepeatedEmpty (afterEmpty : Bool) (ls : List Text) :
    (dropRepeatedEmpty afterEmpty ls).IsChain (fun l m => l = [] → m ≠ []) ∧
      (afterEmpty = true → ∀ l ∈ (dropRepeatedEmpty afterEmpty ls).head?, l ≠ []) := by
  induction ls generalizing afterEmpty with
  | nil => exact ⟨.nil, nofun⟩
  | cons line ls ih =>
    rw [dropRepeatedEmpty]
    split_ifs with h
    · obtain ⟨hchain, hhead⟩ := ih true
      exact ⟨hchain, fun _ => hhead rfl⟩
    · obtain ⟨hchain, hhead⟩ := ih line.isEmpty
      refine ⟨List.isChain_cons.2 ⟨?_, hchain⟩, ?_⟩
      · intro other hother hline
        exact hhead (List.isEmpty_iff.2 hline) other hother
      · intro hafter l hl hnil
        cases hl
        exact h (Bool.and_eq_true_iff.2 ⟨List.isEmpty_iff.2 hnil, hafter⟩)

/-- No two lines of a tidied text that follow one another are blank. -/
theorem isChain_lines_tidy (t : Text) :
    (tidy t).lines.IsChain fun l m => ¬(l.allBlank = true ∧ m.allBlank = true) := by
  rcases lines_tidy t with ⟨-, hnil⟩ | ⟨first, others, hframed, hlines⟩
  · rw [hnil]
    exact .nil
  · have htrimmed := trimmed_tidyLines t
    have hempty : (first :: others).IsChain fun l m => l = [] → m ≠ [] := by
      obtain ⟨above, below, hsplit, -, -⟩ := hframed.frame
      have hchain : (tidyLines t.lines).IsChain fun l m => l = [] → m ≠ [] :=
        (isChain_dropRepeatedEmpty false _).1
      exact hchain.infix ⟨above, below, by rw [hsplit, List.append_assoc]⟩
    have hfirst := hframed.allBlank_trimStart htrimmed
    rw [hlines]
    refine List.isChain_cons.2 ⟨?_, ?_⟩
    · intro l _ hblank
      rw [hfirst] at hblank
      exact Bool.false_ne_true hblank.1
    · have hothers : others.IsChain fun l m => l = [] → m ≠ [] := (List.isChain_cons.1 hempty).2
      apply hothers.imp_of_mem_imp
      intro l m hl hm happart hblank
      have hmem : ∀ other ∈ others, other ∈ tidyLines t.lines :=
        fun other ho => hframed.subset (List.mem_cons_of_mem first ho)
      have hl' := (htrimmed.allBlank_iff (hmem l hl)).1 hblank.1
      have hm' := (htrimmed.allBlank_iff (hmem m hm)).1 hblank.2
      exact happart hl' hm'

theorem tab_notMem_squeezeFrom (inGap : Bool) (t : Text) : '\t' ∉ squeezeFrom inGap t := by
  induction t generalizing inGap with
  | nil => exact List.not_mem_nil
  | cons c t ih =>
    rw [squeezeFrom]
    split_ifs with hc hg
    · exact ih true
    · intro hm
      rcases List.mem_cons.1 hm with htab | hm
      · cases htab
      · exact ih true hm
    · intro hm
      rcases List.mem_cons.1 hm with rfl | hm
      · exact hc rfl
      · exact ih false hm

theorem isChain_squeezeFrom (inGap : Bool) (t : Text) :
    (squeezeFrom inGap t).IsChain (fun c d => c = ' ' → d ≠ ' ') ∧
      (inGap = true → ∀ c ∈ (squeezeFrom inGap t).head?, c ≠ ' ') := by
  induction t generalizing inGap with
  | nil => exact ⟨.nil, nofun⟩
  | cons c t ih =>
    rw [squeezeFrom]
    split_ifs with hc hg
    · obtain ⟨hchain, hhead⟩ := ih true
      exact ⟨hchain, fun _ => hhead rfl⟩
    · obtain ⟨hchain, hhead⟩ := ih true
      refine ⟨List.isChain_cons.2 ⟨fun d hd _ => hhead rfl d hd, hchain⟩, ?_⟩
      intro hin
      exact absurd hin hg
    · obtain ⟨hchain, -⟩ := ih false
      have hspace : c ≠ ' ' := (not_isGap_iff.1 hc).1
      refine ⟨List.isChain_cons.2 ⟨fun _ _ hin => absurd hin hspace, hchain⟩, ?_⟩
      intro _ d hd
      cases hd
      exact hspace

/-- A tidied text is a part of the tidied lines. -/
theorem isInfix_closeLines_tidyLines (t : Text) :
    tidy t <:+: Text.closeLines (tidyLines t.lines) := by
  obtain ⟨feeds, -, hclose⟩ := Text.exists_closeLines (tidyLines t.lines)
  have hblock : tidyBlock t <:+: Text.closeLines (tidyLines t.lines) :=
    ⟨[], feeds, hclose.symm⟩
  exact (Text.isInfix_trim (tidyBlock t)).trans hblock

/-- A line of a tidied text is a part of a line with single gaps. -/
theorem exists_of_mem_tidyLines {ls : List Text} {line : Text} (h : line ∈ tidyLines ls) :
    ∃ raw ∈ ls, line <+: squeeze raw := by
  obtain ⟨raw, hraw, rfl⟩ := List.mem_map.1 ((dropRepeatedEmpty_sublist _ _).mem h)
  obtain ⟨blanks, -, hsqueeze⟩ := Text.exists_trimEnd_append (squeeze raw)
  exact ⟨raw, hraw, blanks, hsqueeze.symm⟩

theorem tab_notMem_tidy (t : Text) : '\t' ∉ tidy t := by
  intro hm
  obtain ⟨line, hl, hline⟩ := List.mem_flatMap.1 ((isInfix_closeLines_tidyLines t).subset hm)
  rcases List.mem_append.1 hline with hline | hfeed
  · obtain ⟨raw, -, hraw⟩ := exists_of_mem_tidyLines hl
    exact tab_notMem_squeezeFrom false raw (hraw.subset hline)
  · exact absurd (List.mem_singleton.1 hfeed) (by decide)

theorem isChain_closeLines {ls : List Text} (h : ∀ l ∈ ls, l.IsChain fun c d => c = ' ' → d ≠ ' ') :
    (Text.closeLines ls).IsChain fun c d => c = ' ' → d ≠ ' ' := by
  induction ls with
  | nil => exact .nil
  | cons l ls ih =>
    have hrest := ih fun m hm => h m (List.mem_cons_of_mem l hm)
    have hfeed : ('\n' :: Text.closeLines ls).IsChain fun c d => c = ' ' → d ≠ ' ' :=
      List.isChain_cons.2 ⟨fun _ _ hspace => absurd hspace (by decide), hrest⟩
    rw [Text.closeLines_cons, List.isChain_append]
    refine ⟨h l List.mem_cons_self, hfeed, ?_⟩
    intro c _ d hd _
    cases hd
    decide

theorem spaces_not_infix_tidy (t : Text) : ¬[' ', ' '] <:+: tidy t := by
  intro hspaces
  have hclose : (Text.closeLines (tidyLines t.lines)).IsChain fun c d => c = ' ' → d ≠ ' ' := by
    apply isChain_closeLines
    intro line hl
    obtain ⟨raw, -, hline⟩ := exists_of_mem_tidyLines hl
    have hsqueeze : (squeeze raw).IsChain fun c d => c = ' ' → d ≠ ' ' :=
      (isChain_squeezeFrom false raw).1
    exact hsqueeze.infix hline.isInfix
  have hchain := hclose.infix (hspaces.trans (isInfix_closeLines_tidyLines t))
  exact (List.isChain_cons_cons.1 hchain).1 rfl rfl

end Directive

/-- A text that has no blanks to spare: no tab, no two spaces in a row, no blank at the end of a line,
no two blank lines in a row, and no blank at its own ends. Its lines end in line feeds alone. -/
structure Text.Neat (t : Text) : Prop where
  tab : '\t' ∉ t
  spaces : ¬[' ', ' '] <:+: t
  feeds : ¬['\r', '\n'] <:+: t
  ends : ∀ line ∈ t.lines, ∀ c ∈ line.getLast?, isBlank c = false
  apart : t.lines.IsChain fun above below => ¬(above.allBlank = true ∧ below.allBlank = true)
  bare : t.Bare

namespace Directive

theorem neat_tidy (t : Text) : (tidy t).Neat where
  tab := tab_notMem_tidy t
  spaces := spaces_not_infix_tidy t
  feeds := by
    intro hfeed
    have hpart : [] ++ '\r' :: '\n' :: [] <:+: tidy t := hfeed
    exact absurd (eq_feed_of_tidy hpart (by decide)) (by decide)
  ends := by
    intro line hl c hc
    obtain ⟨u, hu⟩ := List.getLast?_eq_some_iff.1 hc
    have htrim := (trimmed_lines_tidy t line hl).2
    rw [hu] at htrim
    exact Text.isBlank_eq_false_of_trimEnd htrim
  apart := isChain_lines_tidy t
  bare := Text.bare_trim (tidyBlock t)

/-- Without directives, expanding a text is tidying it. This keeps all characters that are not blank.
The lines that hold them stay as they are, in their order, but for runs of spaces and tabs made one
space and for blanks at their ends, and at the start of the first one. What is left is neat. -/
theorem tidy_keeps_ink_and_lines (t : Text) :
    expand [] t = tidy t ∧ (tidy t).ink = t.ink ∧
    (∃ squeezed, List.Forall₂ SingleGaps (Text.inked t.lines) squeezed ∧
      Text.inked (tidy t).lines = (squeezed.map Text.trimEnd).modifyHead Text.trimStart) ∧
    (tidy t).Neat := by
  have hexpand : expand [] t = tidy t :=
    expand_eq_tidy fun _ hd => absurd hd List.not_mem_nil
  refine ⟨hexpand, ink_tidy t, ⟨_, forall₂_singleGaps (Text.inked t.lines), ?_⟩, neat_tidy t⟩
  rw [inked_lines_tidy, List.map_map]
  rfl

-- Leading blanks go from the first line only, and a line of other blanks is an empty line.
example : tidy "\u3000 a \t b\r\n \t\n\u00a0\n \t c\u2003".toList = "a b\n\n c".toList := by
  cbv

end Directive

end PromptChain
