import PromptChain.Proofs.Tidying

/-! Markers without blanks, such as tokens and separators: tidying a text neither makes one nor
removes one. -/
namespace PromptChain

namespace Text

theorem has_nil {marker : Text} (hm : marker ≠ []) : has marker [] = false :=
  List.isEmpty_eq_false_iff.2 hm

theorem has_cons (marker : Text) (c : Char) (t : Text) :
    has marker (c :: t) = ((after? marker (c :: t)).isSome || has marker t) := rfl

/-- A marker stands on one side of a character that is not in it. -/
theorem has_append_cons {marker : Text} {c : Char} (hm : marker ≠ []) (hc : c ∉ marker)
    (s t : Text) : has marker (s ++ c :: t) = (has marker s || has marker t) := by
  induction s with
  | nil =>
    have hnone : after? marker [] = none := by
      cases marker with
      | nil => exact absurd rfl hm
      | cons m marker => rfl
    have hafter : after? marker (c :: t) = none := after?_append_of_notMem hnone hc t
    rw [List.nil_append, has_cons, hafter, has_nil hm]
    rfl
  | cons d s ih =>
    have hafter := after?_append_cons hc (d :: s) t
    rw [List.cons_append] at hafter
    rw [List.cons_append, has_cons, hafter, Option.isSome_map, ih, has_cons, Bool.or_assoc]

section Solid

variable {marker : Text} (hm : Solid marker)
include hm

theorem Solid.notMem_of_isBlank {c : Char} (hc : isBlank c = true) : c ∉ marker := by
  intro h
  rw [hm.2 c h] at hc
  cases hc

theorem Solid.has_append_blank {c : Char} (hc : isBlank c = true) (s t : Text) :
    has marker (s ++ c :: t) = (has marker s || has marker t) :=
  has_append_cons hm.1 (hm.notMem_of_isBlank hc) s t

theorem Solid.has_blank_cons {c : Char} (hc : isBlank c = true) (t : Text) :
    has marker (c :: t) = has marker t := by
  have happend := hm.has_append_blank hc [] t
  rwa [has_nil hm.1, Bool.false_or] at happend

theorem Solid.has_of_allBlank {blanks : Text} (hb : blanks.allBlank = true) :
    has marker blanks = false := by
  induction blanks with
  | nil => exact has_nil hm.1
  | cons c blanks ih =>
    obtain ⟨hc, hb⟩ := allBlank_cons.1 hb
    rw [hm.has_blank_cons hc, ih hb]

theorem Solid.has_append_of_allBlank {blanks : Text} (hb : blanks.allBlank = true) (t : Text) :
    has marker (t ++ blanks) = has marker t := by
  cases blanks with
  | nil => rw [List.append_nil]
  | cons c blanks =>
    obtain ⟨hc, hb⟩ := allBlank_cons.1 hb
    rw [hm.has_append_blank hc, hm.has_of_allBlank hb, Bool.or_false]

theorem Solid.has_trimEnd (t : Text) : has marker t.trimEnd = has marker t := by
  obtain ⟨blanks, hb, ht⟩ := exists_trimEnd_append t
  calc has marker t.trimEnd = has marker (t.trimEnd ++ blanks) :=
        (hm.has_append_of_allBlank hb _).symm
    _ = has marker t := by rw [← ht]

theorem Solid.has_trimStart (t : Text) : has marker t.trimStart = has marker t := by
  induction t with
  | nil => rfl
  | cons c t ih =>
    by_cases hc : isBlank c = true
    · have hstart : trimStart (c :: t) = trimStart t := List.dropWhile_cons_of_pos hc
      rw [hstart, ih, hm.has_blank_cons hc]
    · rw [trimStart_cons_of_notBlank (Bool.eq_false_iff.2 hc)]

/-- A marker stands on one of the lines of a text. -/
theorem Solid.any_has_lines (t : Text) : (lines t).any (has marker) = has marker t := by
  induction t using feed_induction with
  | line t h =>
    rw [lines_of_notMem h]
    split_ifs with ht
    · rw [ht, has_nil hm.1]
      rfl
    · exact Bool.or_false _
  | feed l rest h ih =>
    obtain ⟨line, hline, hlines⟩ := exists_lines_append_feed h
    have hl : has marker line = has marker l := by
      rcases hline with rfl | rfl
      · rfl
      · exact (hm.has_append_of_allBlank rfl line).symm
    rw [hlines, List.any_cons, ih, hl, hm.has_append_blank rfl]

theorem Solid.has_closeLines (ls : List Text) :
    has marker (closeLines ls) = ls.any (has marker) := by
  induction ls with
  | nil => exact has_nil hm.1
  | cons l ls ih => rw [closeLines_cons, hm.has_append_blank rfl, ih, List.any_cons]

theorem Solid.has_intercalate (ls : List Text) :
    has marker (['\n'].intercalate ls) = ls.any (has marker) := by
  obtain ⟨feeds, hf, hclose⟩ := exists_closeLines ls
  rw [← hm.has_closeLines, hclose, hm.has_append_of_allBlank hf]

end Solid

end Text

namespace Directive

variable {marker : Text}

theorem isBlank_of_isGap {c : Char} (h : isGap c = true) : Text.isBlank c = true := by
  rw [← Bool.not_eq_false]
  intro hc
  rw [isGap_of_notBlank hc] at h
  cases h

theorem isSome_after?_squeeze (hm : ∀ m ∈ marker, Text.isBlank m = false) (t : Text) :
    (Text.after? marker (squeeze t)).isSome = (Text.after? marker t).isSome := by
  induction marker generalizing t with
  | nil => rfl
  | cons m marker ih =>
    have hhead : Text.isBlank m = false := hm m List.mem_cons_self
    cases t with
    | nil => rfl
    | cons c t =>
      rw [squeeze, squeezeFrom]
      by_cases hc : isGap c = true
      · have hmc : m ≠ c := by
          rintro rfl
          rw [isBlank_of_isGap hc] at hhead
          cases hhead
        have hspace : m ≠ ' ' := by
          rintro rfl
          cases hhead
        rw [if_pos hc, if_neg Bool.false_ne_true, Text.after?, if_neg hspace, Text.after?, if_neg hmc]
      · rw [if_neg hc, Text.after?, Text.after?]
        split_ifs
        · exact ih (fun d hd => hm d (List.mem_cons_of_mem m hd)) t
        · rfl

theorem has_squeezeFrom (hm : marker.Solid) (inGap : Bool) (t : Text) :
    Text.has marker (squeezeFrom inGap t) = Text.has marker t := by
  induction t generalizing inGap with
  | nil => rfl
  | cons c t ih =>
    by_cases hc : isGap c = true
    · have hspace : Text.isBlank ' ' = true := rfl
      rw [squeezeFrom, if_pos hc, hm.has_blank_cons (isBlank_of_isGap hc)]
      split_ifs
      · exact ih true
      · rw [hm.has_blank_cons hspace, ih]
    · have hafter := isSome_after?_squeeze hm.2 (c :: t)
      rw [squeeze, squeezeFrom, if_neg hc] at hafter
      rw [squeezeFrom, if_neg hc, Text.has_cons, hafter, ih, Text.has_cons]

theorem has_tidyLine (hm : marker.Solid) (line : Text) :
    Text.has marker (tidyLine line) = Text.has marker line :=
  (hm.has_trimEnd _).trans (has_squeezeFrom hm false line)

theorem any_has_dropRepeatedEmpty (hm : marker ≠ []) (afterEmpty : Bool) (lines : List Text) :
    (dropRepeatedEmpty afterEmpty lines).any (Text.has marker) =
      lines.any (Text.has marker) := by
  induction lines generalizing afterEmpty with
  | nil => rfl
  | cons line lines ih =>
    rw [dropRepeatedEmpty, List.any_cons]
    split_ifs with h
    · rw [ih, List.isEmpty_iff.1 (Bool.and_eq_true_iff.1 h).1, Text.has_nil hm, Bool.false_or]
    · rw [List.any_cons, ih]

/-- Tidying neither makes a marker without blanks nor removes one. -/
theorem has_tidy (hm : marker.Solid) (t : Text) :
    Text.has marker (tidy t) = Text.has marker t := by
  calc Text.has marker (tidy t) = Text.has marker (tidyBlock t) :=
        (hm.has_trimEnd _).trans (hm.has_trimStart _)
    _ = (tidyLines t.lines).any (Text.has marker) := hm.has_intercalate _
    _ = (t.lines.map tidyLine).any (Text.has marker) := any_has_dropRepeatedEmpty hm.1 false _
    _ = t.lines.any (Text.has marker) := by
        rw [List.any_map]
        exact congrArg t.lines.any (funext (has_tidyLine hm))
    _ = Text.has marker t := hm.any_has_lines t

end Directive

end PromptChain
