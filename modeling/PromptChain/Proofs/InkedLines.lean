import PromptChain.Proofs.Tidying

/-! What is not blank in a text: its ink, the lines that hold it, and the empty lines around them. -/
namespace PromptChain

namespace Text

def ink (t : Text) : Text :=
  t.filter fun c => !isBlank c

/-- The lines that hold more than blanks. -/
def inked (ls : List Text) : List Text :=
  ls.filter fun l => !l.allBlank

theorem inked_cons {l : Text} (h : l.allBlank = false) (ls : List Text) :
    inked (l :: ls) = l :: inked ls :=
  List.filter_cons_of_pos (by rw [h]; rfl)

theorem inked_eq_nil {ls : List Text} (h : ∀ l ∈ ls, l = []) : inked ls = [] := by
  apply List.filter_eq_nil_iff.2
  intro l hl
  rw [h l hl]
  decide

theorem ink_append (s t : Text) : ink (s ++ t) = ink s ++ ink t :=
  List.filter_append ..

theorem ink_eq_nil_iff {t : Text} : ink t = [] ↔ t.allBlank = true := by
  rw [ink, List.filter_eq_nil_iff, allBlank, List.all_eq_true]
  simp

theorem ink_trimEnd (t : Text) : ink t.trimEnd = ink t := by
  obtain ⟨blanks, hb, ht⟩ := exists_trimEnd_append t
  have happend := ink_append t.trimEnd blanks
  rw [← ht, ink_eq_nil_iff.2 hb, List.append_nil] at happend
  exact happend.symm

theorem ink_trimStart (t : Text) : ink t.trimStart = ink t := by
  have hsplit : t.takeWhile isBlank ++ t.trimStart = t := List.takeWhile_append_dropWhile
  have hfront : allBlank (t.takeWhile isBlank) = true := List.all_takeWhile
  have happend := ink_append (t.takeWhile isBlank) t.trimStart
  rw [hsplit, ink_eq_nil_iff.2 hfront, List.nil_append] at happend
  exact happend.symm

theorem ink_trim (t : Text) : ink t.trim = ink t := by
  rw [trim, ink_trimEnd, ink_trimStart]

theorem allBlank_congr_ink {s t : Text} (h : ink s = ink t) : s.allBlank = t.allBlank := by
  rw [Bool.eq_iff_iff, ← ink_eq_nil_iff, ← ink_eq_nil_iff, h]

/-- No character but blanks is lost between lines. -/
theorem flatMap_ink_lines (t : Text) : (lines t).flatMap ink = ink t := by
  induction t using feed_induction with
  | line t h =>
    rw [lines_of_notMem h]
    split_ifs with ht
    · rw [ht]
      rfl
    · exact List.flatMap_singleton ..
  | feed l rest h ih =>
    obtain ⟨line, hline, hlines⟩ := exists_lines_append_feed h
    have hl : ink line = ink l := by
      rcases hline with rfl | rfl
      · rfl
      · rw [ink_append]
        exact (List.append_nil _).symm
    rw [hlines, List.flatMap_cons, ih, hl, ink_append]
    rfl

/-- Lines that hold blanks only add nothing. -/
theorem flatMap_ink_inked (ls : List Text) : (inked ls).flatMap ink = ls.flatMap ink := by
  induction ls with
  | nil => rfl
  | cons l ls ih =>
    rw [List.flatMap_cons, ← ih]
    cases hl : l.allBlank with
    | true =>
      rw [ink_eq_nil_iff.2 hl, List.nil_append, inked, List.filter_cons_of_neg (by simp [hl]), inked]
    | false =>
      rw [inked_cons hl, List.flatMap_cons]

theorem ink_closeLines (ls : List Text) : ink (closeLines ls) = ls.flatMap ink := by
  induction ls with
  | nil => rfl
  | cons l ls ih =>
    rw [closeLines_cons, ink_append, List.flatMap_cons, ← ih]
    rfl

theorem ink_intercalate (ls : List Text) : ink (['\n'].intercalate ls) = ls.flatMap ink := by
  obtain ⟨feeds, hf, hclose⟩ := exists_closeLines ls
  rw [← ink_closeLines, hclose, ink_append, ink_eq_nil_iff.2 hf, List.append_nil]

theorem Trimmed.allBlank_iff {ls : List Text} (h : Trimmed ls) {l : Text} (hl : l ∈ ls) :
    l.allBlank = true ↔ l = [] := by
  rw [← trimEnd_eq_nil_iff, (h l hl).2]

theorem Trimmed.subset {ls ls' : List Text} (h : Trimmed ls) (hsub : ls' ⊆ ls) : Trimmed ls' :=
  fun l hl => h l (hsub hl)

/-- Lines that are joined are read back, if the last one is not empty. -/
theorem lines_intercalate {ls : List Text} (h : Trimmed ls) (hlast : ls.getLast? ≠ some []) :
    lines (['\n'].intercalate ls) = ls := by
  rcases List.eq_nil_or_concat ls with rfl | ⟨front, last, rfl⟩
  · rfl
  · rw [List.concat_eq_append] at h hlast ⊢
    have hne : last ≠ [] := by
      rintro rfl
      exact hlast List.getLast?_concat
    have hline : lines last = [last] := by
      rw [lines_of_notMem (h last (by simp)).1, if_neg hne]
    have hfront : Trimmed front := h.subset (List.subset_append_left front [last])
    rw [intercalate_append_cons, List.intercalate_singleton, lines_closeLines_append hfront, hline]

/-- Joined lines have no blank at their end, if the last one is not empty. -/
theorem trimEnd_intercalate_eq_self {ls : List Text} (h : Trimmed ls)
    (hlast : ls.getLast? ≠ some []) :
    trimEnd (['\n'].intercalate ls) = ['\n'].intercalate ls := by
  rcases List.eq_nil_or_concat ls with rfl | ⟨front, last, rfl⟩
  · rfl
  · rw [List.concat_eq_append] at h hlast ⊢
    have htrim := (h last (by simp)).2
    rcases List.eq_nil_or_concat last with rfl | ⟨u, c, rfl⟩
    · exact absurd List.getLast?_concat hlast
    · rw [List.concat_eq_append] at htrim ⊢
      have hc : isBlank c = false := isBlank_eq_false_of_trimEnd htrim
      rw [intercalate_append_cons, List.intercalate_singleton, ← List.append_assoc,
        trimEnd_append_cons hc]
      rfl

/-- Blanks at the start of joined lines are those at the start of the first one, if it holds more
than blanks. -/
theorem trimStart_intercalate_cons {first : Text} (h : first.allBlank = false) (ls : List Text) :
    trimStart (['\n'].intercalate (first :: ls)) = ['\n'].intercalate (first.trimStart :: ls) := by
  rcases exists_trimStart first with hblank | ⟨blanks, c, u, hb, hc, hfirst, hstart⟩
  · rw [hblank] at h
    cases h
  · have hcons : ['\n'].intercalate ((c :: u) :: ls) = c :: ['\n'].intercalate (u :: ls) :=
      intercalate_append_head [c] u ls
    rw [hstart, hfirst, intercalate_append_head, trimStart_append_of_allBlank hb, hcons,
      trimStart_cons_of_notBlank hc]

/-- Lines with empty lines above and below them, the first and the last of which are not empty. -/
structure Framed (ls : List Text) (first : Text) (others : List Text) : Prop where
  frame : ∃ above below, ls = above ++ (first :: others ++ below) ∧
    (∀ l ∈ above, l = []) ∧ ∀ l ∈ below, l = []
  ne_nil : first ≠ []
  last : (first :: others).getLast? ≠ some []

theorem exists_above (ls : List Text) :
    ∃ above rest, ls = above ++ rest ∧ (∀ l ∈ above, l = []) ∧ rest.head? ≠ some [] := by
  induction ls with
  | nil => exact ⟨[], [], rfl, fun _ hm => absurd hm List.not_mem_nil, nofun⟩
  | cons l ls ih =>
    by_cases hl : l = []
    · obtain ⟨above, rest, hls, habove, hrest⟩ := ih
      refine ⟨l :: above, rest, by rw [hls]; rfl, ?_, hrest⟩
      intro other hm
      rcases List.mem_cons.1 hm with rfl | hm
      · exact hl
      · exact habove other hm
    · refine ⟨[], l :: ls, rfl, fun _ hm => absurd hm List.not_mem_nil, ?_⟩
      intro hhead
      exact hl (Option.some.inj hhead)

theorem exists_below (ls : List Text) :
    ∃ rest below, ls = rest ++ below ∧ (∀ l ∈ below, l = []) ∧ rest.getLast? ≠ some [] := by
  obtain ⟨above, rest, hls, habove, hrest⟩ := exists_above ls.reverse
  refine ⟨rest.reverse, above.reverse, ?_, fun l hl => habove l (List.mem_reverse.1 hl), ?_⟩
  · rw [← List.reverse_append, ← hls, List.reverse_reverse]
  · rwa [List.getLast?_reverse]

theorem exists_framed (ls : List Text) :
    (∀ l ∈ ls, l = []) ∨ ∃ first others, Framed ls first others := by
  obtain ⟨above, rest, hls, habove, hrest⟩ := exists_above ls
  cases rest with
  | nil =>
    left
    intro l hl
    rw [hls, List.append_nil] at hl
    exact habove l hl
  | cons first rest =>
    right
    have hfirst : first ≠ [] := by
      rintro rfl
      exact hrest rfl
    obtain ⟨others, below, hothers, hbelow, hlast⟩ := exists_below rest
    refine ⟨first, others, ⟨above, below, ?_, habove, hbelow⟩, hfirst, ?_⟩
    · rw [hls, hothers]
      rfl
    · cases others with
      | nil => exact fun h => hfirst (Option.some.inj h)
      | cons second others => rwa [List.getLast?_cons_cons]

theorem allBlank_closeLines {ls : List Text} (h : ∀ l ∈ ls, l = []) :
    (closeLines ls).allBlank = true := by
  rw [← ink_eq_nil_iff, ink_closeLines, List.flatMap_eq_nil_iff]
  intro l hl
  rw [h l hl]
  rfl

section

variable {ls : List Text} {first : Text} {others : List Text}

theorem Framed.subset (h : Framed ls first others) : first :: others ⊆ ls := by
  obtain ⟨above, below, hls, -, -⟩ := h.frame
  intro l hl
  rw [hls]
  exact List.mem_append_right above (List.mem_append_left below hl)

/-- What the first line that is not empty holds is not all blank. -/
theorem Framed.allBlank_first (h : Framed ls first others) (hls : Trimmed ls) :
    first.allBlank = false := by
  rw [Bool.eq_false_iff]
  intro hblank
  exact h.ne_nil ((hls.allBlank_iff (h.subset List.mem_cons_self)).1 hblank)

theorem Framed.allBlank_trimStart (h : Framed ls first others) (hls : Trimmed ls) :
    allBlank first.trimStart = false := by
  rw [allBlank_congr_ink (ink_trimStart first)]
  exact h.allBlank_first hls

theorem Framed.inked_eq (h : Framed ls first others) (hls : Trimmed ls) :
    inked ls = first :: inked others := by
  obtain ⟨above, below, hsplit, habove, hbelow⟩ := h.frame
  have hfirst := h.allBlank_first hls
  rw [hsplit, inked, List.filter_append, List.filter_append, ← inked, ← inked, ← inked,
    inked_eq_nil habove, inked_eq_nil hbelow, List.nil_append, List.append_nil, inked_cons hfirst]

theorem Framed.trimmed (h : Framed ls first others) (hls : Trimmed ls) :
    Trimmed (first.trimStart :: others) := by
  have hframed : Trimmed (first :: others) := hls.subset h.subset
  intro l hl
  rcases List.mem_cons.1 hl with rfl | hl
  · obtain ⟨hn, htrim⟩ := hframed first List.mem_cons_self
    refine ⟨fun hm => hn ((List.dropWhile_suffix isBlank).subset hm), ?_⟩
    rw [← trimStart_trimEnd, htrim]
  · exact hframed l (List.mem_cons_of_mem first hl)

theorem Framed.getLast?_ne (h : Framed ls first others) (hls : Trimmed ls) :
    (first.trimStart :: others).getLast? ≠ some [] := by
  cases others with
  | nil =>
    intro hlast
    have hnil : first.trimStart = [] := Option.some.inj hlast
    have hfirst := h.allBlank_trimStart hls
    rw [hnil] at hfirst
    cases hfirst
  | cons second others =>
    have hlast := h.last
    rwa [List.getLast?_cons_cons] at hlast ⊢

/-- Trimming the joined lines takes the empty lines around them away, and the blanks before the
first one. -/
theorem Framed.trim_intercalate (h : Framed ls first others) (hls : Trimmed ls) :
    trim (['\n'].intercalate ls) = ['\n'].intercalate (first.trimStart :: others) := by
  obtain ⟨above, below, hsplit, habove, hbelow⟩ := h.frame
  have hstart : trimStart (['\n'].intercalate ls) =
      ['\n'].intercalate (first.trimStart :: others ++ below) := by
    rw [hsplit, List.cons_append, intercalate_append_cons,
      trimStart_append_of_allBlank (allBlank_closeLines habove), trimStart_intercalate_cons
        (h.allBlank_first hls)]
    rfl
  have hend : trimEnd (['\n'].intercalate (first.trimStart :: others ++ below)) =
      trimEnd (['\n'].intercalate (first.trimStart :: others)) := by
    rw [trimEnd_intercalate, closeLines, List.flatMap_append, ← closeLines, ← closeLines,
      trimEnd_append_of_allBlank (allBlank_closeLines hbelow), ← trimEnd_intercalate]
  rw [trim, hstart, hend, trimEnd_intercalate_eq_self (h.trimmed hls) (h.getLast?_ne hls)]

theorem Framed.lines_trim (h : Framed ls first others) (hls : Trimmed ls) :
    lines (trim (['\n'].intercalate ls)) = first.trimStart :: others := by
  rw [h.trim_intercalate hls, lines_intercalate (h.trimmed hls) (h.getLast?_ne hls)]

end

end Text

end PromptChain
