import PromptChain.Proofs.Markers
import PromptChain.Proofs.Seams

/-! The placeholders of a tidied text are those of the text, with the gaps in their names made single
spaces. -/
namespace PromptChain

namespace Text

theorem placeholders_of_some {t name rest : Text} (h : placeholder? t = some (name, rest)) :
    t.placeholders = name :: rest.placeholders := by
  rw [placeholders, pieces_of_some h]
  rfl

theorem placeholders_of_none {c : Char} {t : Text} (h : placeholder? (c :: t) = none) :
    placeholders (c :: t) = t.placeholders := by
  rw [placeholders, pieces_of_none h]
  rfl

theorem placeholders_nil : placeholders [] = [] := by
  rw [placeholders, pieces]
  rfl

/-- A text with a placeholder at its start has two braces there. -/
theorem placeholder?_eq_none {t : Text} (h : ∀ u, t ≠ '{' :: '{' :: u) : placeholder? t = none := by
  unfold placeholder?
  split
  · next u => exact absurd rfl (h u)
  · rfl

/-- A text without two opening braces in a row adds no placeholder to what follows it. -/
theorem Tame.placeholders_append {s : Text} (h : s.Tame) (t : Text) :
    (s ++ t).placeholders = t.placeholders := by
  induction s with
  | nil => rfl
  | cons c s ih =>
    have hnone : placeholder? (c :: (s ++ t)) = none := by
      apply placeholder?_eq_none
      intro u hu
      obtain ⟨rfl, hs⟩ := List.cons.inj hu
      cases s with
      | nil => exact h.last rfl
      | cons d s =>
        obtain ⟨rfl, -⟩ := List.cons.inj hs
        exact h.single ⟨[], s, rfl⟩
    have hrest : Tame s := by
      refine ⟨fun hrun => h.single (List.infix_cons hrun), fun hlast => h.last ?_⟩
      rw [List.getLast?_cons, hlast]
      rfl
    rw [List.cons_append, placeholders_of_none hnone, ih hrest]

/-- A text into which no placeholder reaches from before it. -/
def Fenced (t : Text) : Prop :=
  ∀ front name rest, front ≠ [] → isName name = true →
    front ++ t = (Piece.placeholder name).source ++ rest →
      ∃ more, front = (Piece.placeholder name).source ++ more

theorem fenced_feed (t : Text) : Fenced ('\n' :: t) := by
  intro front name rest _ hname h
  rcases List.append_eq_append_iff.1 h with ⟨a, hsource, ha⟩ | ⟨more, hfront, -⟩
  · cases a with
    | nil => exact ⟨[], by rw [hsource, List.append_nil, List.append_nil]⟩
    | cons c a =>
      obtain ⟨rfl, -⟩ := List.cons.inj ha
      have hmem : '\n' ∈ (Piece.placeholder name).source := by simp [hsource]
      have hin : '\n' ∈ name := by simpa [Piece.source] using hmem
      cases List.all_eq_true.1 hname _ hin
  · exact ⟨more, hfront⟩

theorem fenced_of_notMem {t : Text} (h : '}' ∉ t) : Fenced t := by
  intro front name rest _ _ heq
  rcases List.append_eq_append_iff.1 heq with ⟨a, hsource, rfl⟩ | ⟨more, hfront, -⟩
  · have ha : a = [] := by
      by_contra hne
      have hlast : (Piece.placeholder name).source.getLast? = some '}' :=
        List.getLast?_append_of_ne_nil (['{', '{'] ++ name) (List.cons_ne_nil '}' ['}'])
      rw [hsource, List.getLast?_append_of_ne_nil _ hne] at hlast
      have hmem : '}' ∈ a := List.mem_of_getLast? hlast
      exact h (List.mem_append_left rest hmem)
    exact ⟨[], by rw [hsource, ha, List.append_nil, List.append_nil]⟩
  · exact ⟨more, hfront⟩

theorem Fenced.placeholder?_append {t : Text} (h : Fenced t) {front : Text} (hne : front ≠ []) :
    placeholder? (front ++ t) = (placeholder? front).map fun (name, rest) => (name, rest ++ t) := by
  cases hf : placeholder? front with
  | some found =>
    obtain ⟨name, rest⟩ := found
    rw [eq_of_placeholder? hf, List.append_assoc]
    exact placeholder?_source_append (isName_of_placeholder? hf) _
  | none =>
    rw [Option.map_none, Option.eq_none_iff_forall_ne_some]
    rintro ⟨name, rest⟩ hsome
    have hname := isName_of_placeholder? hsome
    obtain ⟨more, hmore⟩ := h front name rest hne hname (eq_of_placeholder? hsome)
    rw [hmore, placeholder?_source_append hname] at hf
    cases hf

theorem Fenced.placeholders_append {t : Text} (h : Fenced t) (front : Text) :
    (front ++ t).placeholders = front.placeholders ++ t.placeholders := by
  fun_induction pieces front with
  | case1 front name rest hp ih =>
    have hne : front ≠ [] := by
      rintro rfl
      cases hp
    have happend := h.placeholder?_append hne
    rw [hp] at happend
    rw [placeholders_of_some happend, placeholders_of_some hp, ih, List.cons_append]
  | case2 => rw [List.nil_append, placeholders_nil, List.nil_append]
  | case3 c rest hp ih =>
    have happend : placeholder? (c :: (rest ++ t)) = none := by
      rw [← List.cons_append, h.placeholder?_append (List.cons_ne_nil c rest), hp]
      rfl
    rw [List.cons_append, placeholders_of_none happend, placeholders_of_none hp, ih]

theorem placeholders_append_feed (s t : Text) :
    (s ++ '\n' :: t).placeholders = s.placeholders ++ t.placeholders := by
  have htame : Tame ['\n'] := tame_of_notMem (by decide)
  have hfeed : placeholders ('\n' :: t) = t.placeholders := htame.placeholders_append t
  rw [(fenced_feed t).placeholders_append, hfeed]

section Blanks

variable {blanks : Text} (h : blanks.allBlank = true)
include h

theorem notMem_of_allBlank {c : Char} (hc : isBlank c = false) : c ∉ blanks := by
  intro hm
  rw [List.all_eq_true.1 h c hm] at hc
  cases hc

theorem placeholders_of_allBlank_append (t : Text) :
    (blanks ++ t).placeholders = t.placeholders :=
  (tame_of_notMem (notMem_of_allBlank h rfl)).placeholders_append t

theorem placeholders_of_allBlank : blanks.placeholders = [] := by
  have hnil := placeholders_of_allBlank_append h []
  rwa [List.append_nil, placeholders_nil] at hnil

theorem placeholders_append_of_allBlank (t : Text) :
    (t ++ blanks).placeholders = t.placeholders := by
  have hfenced : Fenced blanks := fenced_of_notMem (notMem_of_allBlank h rfl)
  rw [hfenced.placeholders_append, placeholders_of_allBlank h, List.append_nil]

end Blanks

theorem placeholders_trimEnd (t : Text) : t.trimEnd.placeholders = t.placeholders := by
  obtain ⟨blanks, hb, ht⟩ := exists_trimEnd_append t
  calc t.trimEnd.placeholders = (t.trimEnd ++ blanks).placeholders :=
        (placeholders_append_of_allBlank hb _).symm
    _ = t.placeholders := by rw [← ht]

theorem placeholders_trimStart (t : Text) : t.trimStart.placeholders = t.placeholders := by
  have hsplit : t.takeWhile isBlank ++ t.trimStart = t := List.takeWhile_append_dropWhile
  have hfront : allBlank (t.takeWhile isBlank) = true := List.all_takeWhile
  have happend := placeholders_of_allBlank_append hfront t.trimStart
  rw [hsplit] at happend
  exact happend.symm

/-- A placeholder stands on one line. -/
theorem flatMap_placeholders_lines (t : Text) : (lines t).flatMap placeholders = t.placeholders := by
  induction t using feed_induction with
  | line t h =>
    rw [lines_of_notMem h]
    split_ifs with ht
    · rw [ht, placeholders_nil]
      rfl
    · exact List.flatMap_singleton ..
  | feed l rest h ih =>
    obtain ⟨line, hline, hlines⟩ := exists_lines_append_feed h
    have hl : line.placeholders = l.placeholders := by
      rcases hline with rfl | rfl
      · rfl
      · exact (placeholders_append_of_allBlank rfl line).symm
    rw [hlines, List.flatMap_cons, ih, hl, placeholders_append_feed]

theorem placeholders_closeLines (ls : List Text) :
    (closeLines ls).placeholders = ls.flatMap placeholders := by
  induction ls with
  | nil => exact placeholders_nil
  | cons l ls ih => rw [closeLines_cons, placeholders_append_feed, ih, List.flatMap_cons]

theorem placeholders_intercalate (ls : List Text) :
    placeholders (['\n'].intercalate ls) = ls.flatMap placeholders := by
  obtain ⟨feeds, hf, hclose⟩ := exists_closeLines ls
  rw [← placeholders_closeLines, hclose, placeholders_append_of_allBlank hf]

end Text

namespace Directive

theorem isGap_of_isNameCharacter {c : Char} (h : isNameCharacter c = false) : isGap c = false := by
  rw [Bool.eq_false_iff]
  intro hc
  rw [isGap, Bool.or_eq_true, beq_iff_eq, beq_iff_eq] at hc
  rcases hc with rfl | rfl <;> cases h

theorem squeeze_cons {c : Char} (hc : isGap c = false) (t : Text) :
    squeeze (c :: t) = c :: squeeze t :=
  squeezeFrom_append hc false [] t

/-- What starts with a name is squeezed in two parts: the gaps of the name, and the rest. -/
theorem span_squeezeFrom (inGap : Bool) (t : Text) :
    (squeezeFrom inGap t).takeWhile isNameCharacter =
        squeezeFrom inGap (t.takeWhile isNameCharacter) ∧
      (squeezeFrom inGap t).dropWhile isNameCharacter =
        squeeze (t.dropWhile isNameCharacter) := by
  induction t generalizing inGap with
  | nil => exact ⟨rfl, rfl⟩
  | cons c t ih =>
    cases hc : isNameCharacter c with
    | false =>
      have hgap := isGap_of_isNameCharacter hc
      simp [squeezeFrom, squeeze, hgap, hc]
    | true =>
      rw [List.takeWhile_cons_of_pos hc, List.dropWhile_cons_of_pos hc, squeezeFrom, squeezeFrom]
      split_ifs
      · exact ih true
      · have hspace : isNameCharacter ' ' = true := rfl
        rw [List.takeWhile_cons_of_pos hspace, List.dropWhile_cons_of_pos hspace, (ih true).1,
          (ih true).2]
        exact ⟨rfl, rfl⟩
      · rw [List.takeWhile_cons_of_pos hc, List.dropWhile_cons_of_pos hc, (ih false).1, (ih false).2]
        exact ⟨rfl, rfl⟩

theorem exists_of_squeeze_eq_cons {c : Char} (hc : isGap c = false) {t u : Text}
    (h : squeeze t = c :: u) : ∃ v, t = c :: v ∧ squeeze v = u := by
  cases t with
  | nil => cases h
  | cons d t =>
    by_cases hd : isGap d = true
    · rw [squeeze, squeezeFrom, if_pos hd, if_neg Bool.false_ne_true] at h
      obtain ⟨rfl, -⟩ := List.cons.inj h
      cases hc
    · rw [squeeze_cons (Bool.eq_false_iff.2 hd)] at h
      obtain ⟨rfl, rfl⟩ := List.cons.inj h
      exact ⟨t, rfl, rfl⟩

theorem isName_squeeze {name : Text} (h : isName name = true) : isName (squeeze name) = true := by
  have htake : name.takeWhile isNameCharacter = name :=
    List.takeWhile_eq_self_iff.2 (List.all_eq_true.1 h)
  have hspan := (span_squeezeFrom false name).1
  rw [htake] at hspan
  exact List.all_eq_true.2 (List.takeWhile_eq_self_iff.1 hspan)

theorem squeeze_source_append (name rest : Text) :
    squeeze ((Piece.placeholder name).source ++ rest) =
      (Piece.placeholder (squeeze name)).source ++ squeeze rest := by
  have hopen : isGap '{' = false := rfl
  have hclose : isGap '}' = false := rfl
  have hname : squeeze (name ++ '}' :: '}' :: rest) = squeeze name ++ '}' :: squeeze ('}' :: rest) :=
    squeezeFrom_append hclose false name _
  rw [squeeze_cons hclose] at hname
  simp [Piece.source, squeeze_cons hopen, hname]

theorem placeholder?_squeeze (t : Text) : Text.placeholder? (squeeze t) =
    (Text.placeholder? t).map fun (name, rest) => (squeeze name, squeeze rest) := by
  cases ht : Text.placeholder? t with
  | some found =>
    obtain ⟨name, rest⟩ := found
    rw [Text.eq_of_placeholder? ht, squeeze_source_append]
    exact Text.placeholder?_source_append (isName_squeeze (Text.isName_of_placeholder? ht)) _
  | none =>
    rw [Option.map_none, Option.eq_none_iff_forall_ne_some]
    rintro ⟨name, rest⟩ hsome
    have hopen : isGap '{' = false := rfl
    have hclose : isGap '}' = false := rfl
    have hall : ∀ c ∈ name, isNameCharacter c = true :=
      List.all_eq_true.1 (Text.isName_of_placeholder? hsome)
    -- The braces are no gaps, so that they stand in the text as they do in the squeezed one.
    obtain ⟨u, rfl, hu⟩ := exists_of_squeeze_eq_cons hopen (Text.eq_of_placeholder? hsome)
    obtain ⟨v, rfl, hv⟩ := exists_of_squeeze_eq_cons hopen hu
    have hdrop := (span_squeezeFrom false v).2
    rw [show squeezeFrom false v = name ++ ['}', '}'] ++ rest from hv, List.append_assoc,
      List.dropWhile_append_of_pos hall] at hdrop
    obtain ⟨w, hw, hrest⟩ := exists_of_squeeze_eq_cons hclose hdrop.symm
    obtain ⟨w, rfl, -⟩ := exists_of_squeeze_eq_cons hclose hrest
    rw [Text.placeholder?, hw] at ht
    cases ht

theorem placeholders_squeezeFrom (inGap : Bool) (t : Text) :
    (squeezeFrom inGap t).placeholders = (squeeze t).placeholders := by
  cases inGap with
  | false => rfl
  | true =>
    cases t with
    | nil => rfl
    | cons c t =>
      by_cases hc : isGap c = true
      · have htame : Text.Tame [' '] := Text.tame_of_notMem (by decide)
        rw [squeeze, squeezeFrom, squeezeFrom, if_pos hc, if_pos hc, if_pos rfl,
          if_neg Bool.false_ne_true]
        exact (htame.placeholders_append _).symm
      · rw [squeeze, squeezeFrom, squeezeFrom, if_neg hc, if_neg hc]

theorem placeholders_squeeze (t : Text) :
    (squeeze t).placeholders = t.placeholders.map squeeze := by
  fun_induction Text.pieces t with
  | case1 t name rest hp ih =>
    have hsqueeze := placeholder?_squeeze t
    rw [hp] at hsqueeze
    rw [Text.placeholders_of_some hsqueeze, Text.placeholders_of_some hp, ih, List.map_cons]
  | case2 => rw [Text.placeholders_nil]; exact Text.placeholders_nil
  | case3 c rest hp ih =>
    have hsqueeze := placeholder?_squeeze (c :: rest)
    rw [hp] at hsqueeze
    rw [Text.placeholders_of_none hp, ← ih]
    -- At the start of a text no gap has begun, so that a first character is never dropped.
    by_cases hc : isGap c = true
    · rw [squeeze, squeezeFrom, if_pos hc, if_neg Bool.false_ne_true] at hsqueeze ⊢
      rw [Text.placeholders_of_none hsqueeze, placeholders_squeezeFrom]
    · rw [squeeze_cons (Bool.eq_false_iff.2 hc)] at hsqueeze ⊢
      rw [Text.placeholders_of_none hsqueeze]

theorem flatMap_placeholders_dropRepeatedEmpty (afterEmpty : Bool) (lines : List Text) :
    (dropRepeatedEmpty afterEmpty lines).flatMap Text.placeholders =
      lines.flatMap Text.placeholders := by
  induction lines generalizing afterEmpty with
  | nil => rfl
  | cons line lines ih =>
    rw [dropRepeatedEmpty, List.flatMap_cons]
    split_ifs with h
    · rw [ih, List.isEmpty_iff.1 (Bool.and_eq_true_iff.1 h).1, Text.placeholders_nil, List.nil_append]
    · rw [List.flatMap_cons, ih]

/-- Tidying keeps the placeholders of a text, and makes the gaps in their names single spaces. -/
theorem placeholders_tidy (t : Text) : (tidy t).placeholders = t.placeholders.map squeeze := by
  have hline : ∀ line, (tidyLine line).placeholders = line.placeholders.map squeeze := fun line =>
    (Text.placeholders_trimEnd _).trans (placeholders_squeeze line)
  calc (tidy t).placeholders = (tidyBlock t).placeholders :=
        (Text.placeholders_trimEnd _).trans (Text.placeholders_trimStart _)
    _ = (tidyLines t.lines).flatMap Text.placeholders := Text.placeholders_intercalate _
    _ = (t.lines.map tidyLine).flatMap Text.placeholders :=
        flatMap_placeholders_dropRepeatedEmpty false _
    _ = (t.lines.flatMap Text.placeholders).map squeeze := by
        rw [List.flatMap_map, List.map_flatMap, funext hline]
    _ = t.placeholders.map squeeze := by rw [Text.flatMap_placeholders_lines]

end Directive

end PromptChain
