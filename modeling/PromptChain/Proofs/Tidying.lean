import Mathlib.Data.List.DropRight
import Mathlib.Data.List.Forall2
import PromptChain.Proofs.Expansion

/-! Tidied texts. Blanks at the ends of a text do not matter, no blank is left before a line feed,
what has no blanks is neither torn apart nor put together, and a tidied text is tidy. -/
namespace PromptChain

namespace Text

theorem trimStart_eq_nil_iff {t : Text} : trimStart t = [] ↔ t.allBlank = true := by
  rw [trimStart, allBlank, List.dropWhile_eq_nil_iff, List.all_eq_true]

theorem trimStart_append_of_allBlank {blanks : Text} (h : blanks.allBlank = true) (t : Text) :
    trimStart (blanks ++ t) = trimStart t :=
  List.dropWhile_append_of_pos (List.all_eq_true.1 h)

theorem trimStart_cons_of_notBlank {c : Char} (hc : isBlank c = false) (t : Text) :
    trimStart (c :: t) = c :: t :=
  List.dropWhile_cons_of_neg (by simp [hc])

/-- A text is all blank, or it has a first character that is not. -/
theorem exists_trimStart (t : Text) :
    t.allBlank = true ∨ ∃ (blanks : Text) (c : Char) (u : Text), blanks.allBlank = true ∧
      isBlank c = false ∧ t = blanks ++ c :: u ∧ t.trimStart = c :: u := by
  cases h : t.trimStart with
  | nil => exact Or.inl (trimStart_eq_nil_iff.1 h)
  | cons c u =>
    have hc : isBlank c = false := by
      have hhead := List.head?_dropWhile_not isBlank t
      rw [show t.dropWhile isBlank = c :: u from h] at hhead
      simpa using hhead
    have hsplit : t.takeWhile isBlank ++ t.trimStart = t := List.takeWhile_append_dropWhile
    rw [h] at hsplit
    exact Or.inr ⟨t.takeWhile isBlank, c, u, List.all_takeWhile, hc, hsplit.symm, rfl⟩

/-- A text is all blank, or it has a last character that is not. -/
theorem exists_trimEnd (t : Text) :
    t.allBlank = true ∨ ∃ (u : Text) (c : Char) (blanks : Text), blanks.allBlank = true ∧
      isBlank c = false ∧ t = u ++ c :: blanks ∧ t.trimEnd = u ++ [c] := by
  obtain ⟨blanks, hb, ht⟩ := exists_trimEnd_append t
  rcases List.eq_nil_or_concat t.trimEnd with hnil | ⟨u, c, hu⟩
  · exact Or.inl (trimEnd_eq_nil_iff.1 hnil)
  · rw [List.concat_eq_append] at hu
    have hc : isBlank c = false := by
      -- A blank would be trimmed once more.
      rw [Bool.eq_false_iff]
      intro hc
      have htrim := trimEnd_trimEnd t
      have hblank : allBlank [c] = true := by simp [allBlank, hc]
      rw [hu, trimEnd_append_of_allBlank hblank] at htrim
      obtain ⟨rest, -, hrest⟩ := exists_trimEnd_append u
      have hlength := congrArg List.length hrest
      rw [htrim] at hlength
      simp at hlength
    refine Or.inr ⟨u, c, blanks, hb, hc, ?_, hu⟩
    rw [hu] at ht
    simpa using ht

theorem trim_of_allBlank {t : Text} (h : t.allBlank = true) : t.trim = [] := by
  rw [trim, trimStart_eq_nil_iff.2 h]
  rfl

theorem trim_trim (t : Text) : t.trim.trim = t.trim := by
  have hstart : trimStart (trimStart t) = trimStart t := List.dropWhile_idempotent isBlank t
  rw [trim, trim, trimStart_trimEnd, hstart, trimEnd_trimEnd]

/-- A text without line feeds is one line, and a line feed starts the lines anew. -/
@[elab_as_elim]
theorem feed_induction {P : Text → Prop} (line : ∀ l, '\n' ∉ l → P l)
    (feed : ∀ l rest, '\n' ∉ l → P rest → P (l ++ '\n' :: rest)) (t : Text) : P t := by
  by_cases h : '\n' ∈ t
  · obtain ⟨l, rest, ht, hl⟩ := List.eq_append_cons_of_mem h
    have hlength : rest.length < t.length := by
      rw [ht]
      simp
      omega
    rw [ht]
    exact feed l rest hl (feed_induction line feed rest)
  · exact line t h
termination_by t.length

theorem lines_of_notMem {l : Text} (h : '\n' ∉ l) : lines l = if l = [] then [] else [l] := by
  induction l with
  | nil => rfl
  | cons c l ih =>
    rw [List.mem_cons, not_or] at h
    have hr : ∀ u, c = '\r' → l ≠ '\n' :: u := by
      rintro u - rfl
      exact h.2 List.mem_cons_self
    rw [lines_cons (Ne.symm h.1) hr, ih h.2]
    by_cases hl : l = [] <;> simp [hl, push]

/-- A line feed ends a line, which may lose a carriage return. -/
theorem exists_lines_append_feed {l : Text} (h : '\n' ∉ l) :
    ∃ line, (l = line ∨ l = line ++ ['\r']) ∧
      ∀ rest, lines (l ++ '\n' :: rest) = line :: lines rest := by
  induction l with
  | nil => exact ⟨[], Or.inl rfl, fun rest => by rw [List.nil_append, lines]⟩
  | cons c l ih =>
    rw [List.mem_cons, not_or] at h
    by_cases hreturn : c = '\r' ∧ l = []
    · obtain ⟨rfl, rfl⟩ := hreturn
      exact ⟨[], Or.inr rfl, fun rest => by rw [List.singleton_append, lines]⟩
    · obtain ⟨line, hline, hlines⟩ := ih h.2
      refine ⟨c :: line, hline.imp (congrArg (c :: ·)) (congrArg (c :: ·)), fun rest => ?_⟩
      have hr : ∀ u, c = '\r' → l ++ '\n' :: rest ≠ '\n' :: u := by
        intro u hc hu
        cases l with
        | nil => exact hreturn ⟨hc, rfl⟩
        | cons d l => exact h.2 ((List.cons.inj hu).1 ▸ List.mem_cons_self)
      rw [List.cons_append, lines_cons (Ne.symm h.1) hr, hlines]
      rfl

theorem mem_of_mem_lines {t l : Text} {c : Char} (hl : l ∈ lines t) (hc : c ∈ l) :
    c ∈ t ∧ c ≠ '\n' := by
  induction t using feed_induction with
  | line t h =>
    rw [lines_of_notMem h] at hl
    split_ifs at hl
    · cases hl
    · rw [List.mem_singleton.1 hl] at hc
      exact ⟨hc, fun hn => h (hn ▸ hc)⟩
  | feed t rest h ih =>
    obtain ⟨line, hline, hlines⟩ := exists_lines_append_feed h
    rw [hlines, List.mem_cons] at hl
    rcases hl with rfl | hl
    · have hct : c ∈ t := by
        rcases hline with rfl | rfl
        · exact hc
        · exact List.mem_append_left _ hc
      exact ⟨List.mem_append_left _ hct, fun hn => h (hn ▸ hct)⟩
    · exact ⟨List.mem_append_right t (List.mem_cons_of_mem _ (ih hl).1), (ih hl).2⟩

theorem allBlank_of_mem_lines {t l : Text} (h : t.allBlank = true) (hl : l ∈ lines t) :
    l.allBlank = true :=
  List.all_eq_true.2 fun c hc => List.all_eq_true.1 h c (mem_of_mem_lines hl hc).1

theorem trimEnd_eq_self_of_cons {c : Char} {t : Text} (h : trimEnd (c :: t) = c :: t) :
    trimEnd t = t := by
  rw [trimEnd_cons] at h
  split_ifs at h
  exact (List.cons.inj h).2

theorem isBlank_eq_false_of_trimEnd {t : Text} {c : Char} (h : trimEnd (t ++ [c]) = t ++ [c]) :
    isBlank c = false := by
  induction t with
  | nil =>
    rw [List.nil_append, trimEnd_cons] at h
    split_ifs at h with hc
    simpa [trimEnd] using hc
  | cons d t ih => exact ih (trimEnd_eq_self_of_cons h)

theorem isInfix_trim (t : Text) : t.trim <:+: t := by
  obtain ⟨blanks, -, hend⟩ := exists_trimEnd_append t.trimStart
  have hstart : t.takeWhile isBlank ++ t.trimStart = t := List.takeWhile_append_dropWhile
  rw [hend, ← List.append_assoc] at hstart
  exact ⟨_, _, hstart⟩

/-- Lines that a line feed does not cut and that have no blanks at their ends. -/
def Trimmed (ls : List Text) : Prop :=
  ∀ l ∈ ls, '\n' ∉ l ∧ l.trimEnd = l

theorem lines_closeLines_append {ls : List Text} (h : Trimmed ls) (t : Text) :
    lines (closeLines ls ++ t) = ls ++ lines t := by
  induction ls with
  | nil => rfl
  | cons l ls ih =>
    obtain ⟨hn, htrim⟩ := h l List.mem_cons_self
    obtain ⟨line, hline, hlines⟩ := exists_lines_append_feed hn
    rw [closeLines_cons, List.append_assoc, List.cons_append, hlines,
      ih fun other ho => h other (List.mem_cons_of_mem l ho)]
    rcases hline with rfl | rfl
    · rfl
    · cases isBlank_eq_false_of_trimEnd htrim

theorem lines_closeLines {ls : List Text} (h : Trimmed ls) : lines (closeLines ls) = ls := by
  have happend := lines_closeLines_append h []
  rwa [List.append_nil, lines, List.append_nil] at happend

/-- A blank that stands before a line feed ends an empty line. -/
theorem eq_feed_of_closeLines {ls : List Text} (hls : Trimmed ls) {front rest : Text} {c : Char}
    (h : closeLines ls = front ++ c :: '\n' :: rest) (hc : isBlank c = true) : c = '\n' := by
  induction ls generalizing front with
  | nil => simp [closeLines] at h
  | cons l ls ih =>
    obtain ⟨hn, htrim⟩ := hls l List.mem_cons_self
    rw [closeLines_cons] at h
    rcases List.append_eq_append_iff.1 h with ⟨more, -, hmore⟩ | ⟨more, hl, hmore⟩
    · cases more with
      | nil => exact (List.cons.inj hmore).1.symm
      | cons d more =>
        exact ih (fun other ho => hls other (List.mem_cons_of_mem l ho)) (List.cons.inj hmore).2
    · -- The blank would end the line, or the line would hold the line feed.
      rcases more with _ | ⟨d, _ | ⟨e, more⟩⟩
      · exact (List.cons.inj hmore).1
      · obtain ⟨rfl, -⟩ := List.cons.inj hmore
        rw [hl] at htrim
        rw [isBlank_eq_false_of_trimEnd htrim] at hc
        cases hc
      · obtain ⟨rfl, -⟩ := List.cons.inj (List.cons.inj hmore).2
        exact absurd (by simp [hl]) hn

end Text

namespace Directive

def tidyBlock (t : Text) : Text :=
  ['\n'].intercalate (tidyLines t.lines)

theorem tidy_eq_trim (t : Text) : tidy t = (tidyBlock t).trim := rfl

theorem mem_squeezeFrom {inGap : Bool} {t : Text} {c : Char} (h : c ∈ squeezeFrom inGap t) :
    c ∈ t ∨ c = ' ' := by
  induction t generalizing inGap with
  | nil => cases h
  | cons d t ih =>
    rw [squeezeFrom] at h
    split_ifs at h
    · exact (ih h).imp_left (List.mem_cons_of_mem d)
    · rcases List.mem_cons.1 h with rfl | h
      · exact Or.inr rfl
      · exact (ih h).imp_left (List.mem_cons_of_mem d)
    · rcases List.mem_cons.1 h with rfl | h
      · exact Or.inl List.mem_cons_self
      · exact (ih h).imp_left (List.mem_cons_of_mem d)

/-- A text with each run of spaces and tabs made one space. -/
inductive SingleGaps : Text → Text → Prop where
  | nil : SingleGaps [] []
  | keep {c : Char} {s t : Text} : c ≠ ' ' ∧ c ≠ '\t' → SingleGaps s t → SingleGaps (c :: s) (c :: t)
  | gap {run s t : Text} : run ≠ [] → (∀ c ∈ run, c = ' ' ∨ c = '\t') →
      (∀ c ∈ s.head?, c ≠ ' ' ∧ c ≠ '\t') → SingleGaps s t → SingleGaps (run ++ s) (' ' :: t)

theorem isGap_iff {c : Char} : isGap c = true ↔ c = ' ' ∨ c = '\t' := by
  rw [isGap, Bool.or_eq_true, beq_iff_eq, beq_iff_eq]

theorem not_isGap_iff {c : Char} : ¬isGap c = true ↔ c ≠ ' ' ∧ c ≠ '\t' := by
  rw [isGap_iff, not_or]

theorem squeezeFrom_true (t : Text) : squeezeFrom true t = squeeze (t.dropWhile isGap) := by
  induction t with
  | nil => rfl
  | cons c t ih =>
    by_cases hc : isGap c = true
    · rw [squeezeFrom, if_pos hc, if_pos rfl, ih, List.dropWhile_cons_of_pos hc]
    · rw [List.dropWhile_cons_of_neg hc, squeeze, squeezeFrom, squeezeFrom, if_neg hc, if_neg hc]

theorem singleGaps_squeeze (t : Text) : SingleGaps t (squeeze t) := by
  match t with
  | [] => exact .nil
  | c :: t =>
    by_cases hc : isGap c = true
    · -- The run goes on to the first character that is no gap.
      have hrun : ∀ d ∈ c :: t.takeWhile isGap, d = ' ' ∨ d = '\t' := by
        intro d hd
        apply isGap_iff.1
        rcases List.mem_cons.1 hd with rfl | hd
        · exact hc
        · exact List.all_eq_true.1 List.all_takeWhile d hd
      have hhead : ∀ d ∈ (t.dropWhile isGap).head?, d ≠ ' ' ∧ d ≠ '\t' := by
        intro d hd
        have hnot := List.head?_dropWhile_not isGap t
        rw [Option.mem_def.1 hd] at hnot
        apply not_isGap_iff.1
        simpa using hnot
      have hrest := SingleGaps.gap (List.cons_ne_nil c (t.takeWhile isGap)) hrun hhead
        (singleGaps_squeeze (t.dropWhile isGap))
      rw [List.cons_append, List.takeWhile_append_dropWhile] at hrest
      rw [squeeze, squeezeFrom, if_pos hc, if_neg (by decide), squeezeFrom_true]
      exact hrest
    · rw [squeeze, squeezeFrom, if_neg hc]
      exact .keep (not_isGap_iff.1 hc) (singleGaps_squeeze t)
termination_by t.length
decreasing_by
  · have hle := (List.dropWhile_suffix isGap (l := t)).length_le
    simp only [List.length_cons]
    omega
  · simp

theorem forall₂_singleGaps (texts : List Text) :
    List.Forall₂ SingleGaps texts (texts.map squeeze) := by
  rw [List.forall₂_map_right_iff, List.forall₂_same]
  exact fun t _ => singleGaps_squeeze t

theorem tidyLine_of_allBlank {line : Text} (h : line.allBlank = true) : tidyLine line = [] := by
  apply Text.trimEnd_eq_nil_iff.2
  apply List.all_eq_true.2
  intro c hc
  rcases mem_squeezeFrom hc with hc | rfl
  · exact List.all_eq_true.1 h c hc
  · rfl

theorem dropRepeatedEmpty_sublist (afterEmpty : Bool) (lines : List Text) :
    (dropRepeatedEmpty afterEmpty lines).Sublist lines := by
  induction lines generalizing afterEmpty with
  | nil => exact List.Sublist.slnil
  | cons line lines ih =>
    rw [dropRepeatedEmpty]
    split_ifs
    · exact (ih true).cons line
    · exact (ih line.isEmpty).cons_cons line

theorem allBlank_intercalate_tidyLines {lines : List Text}
    (h : ∀ line ∈ lines, line.allBlank = true) :
    Text.allBlank (['\n'].intercalate (tidyLines lines)) = true := by
  have hempty : ∀ line ∈ tidyLines lines, line = [] := by
    intro line hl
    obtain ⟨raw, hr, rfl⟩ := List.mem_map.1 ((dropRepeatedEmpty_sublist _ _).mem hl)
    exact tidyLine_of_allBlank (h raw hr)
  rw [← Text.trimEnd_eq_nil_iff, Text.trimEnd_intercalate, Text.trimEnd_eq_nil_iff]
  apply List.all_eq_true.2
  intro c hc
  obtain ⟨line, hl, hc⟩ := List.mem_flatMap.1 hc
  rw [hempty line hl, List.nil_append, List.mem_singleton] at hc
  rw [hc]
  rfl

theorem allBlank_tidyBlock {t : Text} (h : t.allBlank = true) : (tidyBlock t).allBlank = true :=
  allBlank_intercalate_tidyLines fun _ hl => Text.allBlank_of_mem_lines h hl

/-- Tidying goes on at a character that is not blank as if the text started there, apart from blanks
at the seams. -/
theorem exists_tidyBlock_append (s : Text) :
    ∃ front, Text.trimEnd (tidyBlock s) = Text.trimEnd front ∧
      ∀ (c : Char) (t : Text), Text.isBlank c = false →
        ∃ back, tidyBlock (s ++ c :: t) = front ++ c :: back ∧ tidyBlock (c :: t) = c :: back ∧
          Text.trimStart back = (tidyBlock t).trimStart := by
  obtain ⟨closed, last, hshort, hlong⟩ := Text.exists_lines_append s
  refine ⟨Text.closeLines (tidyLines closed) ++ squeeze last, ?_, fun c t hc => ?_⟩
  · rw [tidyBlock, hshort, trimEnd_intercalate_tidyLines]
  have hsolid : Text.Solid [c] := ⟨List.cons_ne_nil c [], by simpa using hc⟩
  have hfeed : c ≠ '\n' := by
    rintro rfl
    cases hc
  obtain ⟨first, others, hlines, ht⟩ := Text.exists_lines_solid_append hsolid t
  refine ⟨['\n'].intercalate (tidyLine first :: tidyLines others), ?_, ?_, ?_⟩
  · rw [tidyBlock, hlong c t _ others hfeed hlines]
    exact intercalate_tidyLines_solid hsolid closed last first others
  · have hstart := intercalate_tidyLines_solid hsolid [] [] first others
    rw [tidyBlock]
    exact (congrArg (fun lines => ['\n'].intercalate (tidyLines lines)) hlines).trans hstart
  · rw [trimStart_intercalate_tidyLines, tidyBlock]
    rcases ht with ht | ⟨ht, rfl, rfl⟩
    · rw [ht]
    · rw [ht]
      rfl

theorem tidy_of_allBlank {t : Text} (h : t.allBlank = true) : tidy t = [] :=
  Text.trim_of_allBlank (allBlank_tidyBlock h)

theorem tidy_trimStart (t : Text) : tidy t.trimStart = tidy t := by
  rcases Text.exists_trimStart t with hblank | ⟨blanks, c, u, hb, hc, ht, hstart⟩
  · rw [Text.trimStart_eq_nil_iff.2 hblank, tidy_of_allBlank hblank]
    rfl
  · obtain ⟨front, hfront, hseam⟩ := exists_tidyBlock_append blanks
    obtain ⟨back, hlong, hshort, -⟩ := hseam c u hc
    have hf : Text.allBlank front = true := by
      rw [← Text.trimEnd_eq_nil_iff, ← hfront]
      exact Text.trimEnd_eq_nil_iff.2 (allBlank_tidyBlock hb)
    rw [hstart, tidy_eq_trim, tidy_eq_trim, ht, hlong, hshort, Text.trim, Text.trim,
      Text.trimStart_append_of_allBlank hf]

theorem tidy_trimEnd (t : Text) : tidy t.trimEnd = tidy t := by
  rcases Text.exists_trimEnd t with hblank | ⟨u, c, blanks, hb, hc, ht, hend⟩
  · rw [Text.trimEnd_eq_nil_iff.2 hblank, tidy_of_allBlank hblank]
    rfl
  · obtain ⟨front, -, hseam⟩ := exists_tidyBlock_append u
    -- Only blanks follow the character, in the text as it is and in the text that ends with it.
    have hcut : ∀ blanks : Text, blanks.allBlank = true →
        (tidyBlock (u ++ c :: blanks)).trimEnd = front ++ [c] := by
      intro blanks hb
      obtain ⟨back, hlong, -, hback⟩ := hseam c blanks hc
      have hnil : Text.trimStart back = [] := by
        rw [hback, Text.trimStart_eq_nil_iff]
        exact allBlank_tidyBlock hb
      rw [hlong, Text.trimEnd_append_cons hc,
        Text.trimEnd_eq_nil_iff.2 (Text.trimStart_eq_nil_iff.1 hnil)]
    rw [hend, tidy_eq_trim, tidy_eq_trim, Text.trim, Text.trim, ← Text.trimStart_trimEnd,
      ← Text.trimStart_trimEnd, hcut [] rfl, ht, hcut blanks hb]

/-- Blanks at the ends of a text make no difference. -/
theorem tidy_trim (t : Text) : tidy t.trim = tidy t :=
  (tidy_trimEnd t.trimStart).trans (tidy_trimStart t)

theorem tidy_congr_trimEnd {s t : Text} (h : s.trimEnd = t.trimEnd) : tidy s = tidy t := by
  rw [← tidy_trimEnd s, h, tidy_trimEnd]

theorem squeezeFrom_trimEnd_squeezeFrom (inGap : Bool) (t : Text) :
    squeezeFrom inGap (squeezeFrom inGap t).trimEnd = (squeezeFrom inGap t).trimEnd := by
  induction t generalizing inGap with
  | nil => rfl
  | cons c t ih =>
    have hspace : isGap ' ' = true := rfl
    rw [squeezeFrom]
    split_ifs with hc hg
    · rw [hg]
      exact ih true
    · rw [Text.trimEnd_cons]
      split_ifs
      · rfl
      · rw [squeezeFrom, if_pos hspace, if_neg hg, ih]
    · rw [Text.trimEnd_cons]
      split_ifs
      · rfl
      · rw [squeezeFrom, if_neg hc, ih]

theorem tidyLine_tidyLine (line : Text) : tidyLine (tidyLine line) = tidyLine line := by
  have hsqueeze : squeeze (tidyLine line) = tidyLine line :=
    squeezeFrom_trimEnd_squeezeFrom false line
  rw [tidyLine, hsqueeze]
  exact Text.trimEnd_trimEnd _

theorem dropRepeatedEmpty_dropRepeatedEmpty (afterEmpty : Bool) (lines : List Text) :
    dropRepeatedEmpty afterEmpty (dropRepeatedEmpty afterEmpty lines) =
      dropRepeatedEmpty afterEmpty lines := by
  induction lines generalizing afterEmpty with
  | nil => rfl
  | cons line lines ih =>
    rw [dropRepeatedEmpty]
    split_ifs with h
    · rw [(Bool.and_eq_true_iff.1 h).2]
      exact ih true
    · rw [dropRepeatedEmpty, if_neg h, ih]

theorem tidyLines_tidyLines (lines : List Text) : tidyLines (tidyLines lines) = tidyLines lines := by
  have hfixed : ∀ line ∈ tidyLines lines, tidyLine line = line := by
    intro line hl
    obtain ⟨raw, -, rfl⟩ := List.mem_map.1 ((dropRepeatedEmpty_sublist _ _).mem hl)
    exact tidyLine_tidyLine raw
  have hmap : (tidyLines lines).map tidyLine = tidyLines lines :=
    (List.map_congr_left hfixed).trans (List.map_id' _)
  rw [tidyLines, hmap]
  exact dropRepeatedEmpty_dropRepeatedEmpty false _

theorem trimmed_tidyLines (t : Text) : Text.Trimmed (tidyLines t.lines) := by
  intro line hl
  obtain ⟨raw, hr, rfl⟩ := List.mem_map.1 ((dropRepeatedEmpty_sublist _ _).mem hl)
  refine ⟨fun hn => ?_, Text.trimEnd_trimEnd _⟩
  obtain ⟨blanks, -, hsplit⟩ := Text.exists_trimEnd_append (squeeze raw)
  have hsqueeze : '\n' ∈ squeeze raw := by
    rw [hsplit]
    exact List.mem_append_left blanks hn
  rcases mem_squeezeFrom hsqueeze with hraw | hspace
  · exact (Text.mem_of_mem_lines hr hraw).2 rfl
  · cases hspace

/-- A tidied text is tidy: tidying it again changes nothing. -/
theorem tidy_tidy (t : Text) : tidy (tidy t) = tidy t := by
  have hclose : (tidyBlock t).trimEnd = (Text.closeLines (tidyLines t.lines)).trimEnd :=
    Text.trimEnd_intercalate _
  have hblock : tidyBlock (Text.closeLines (tidyLines t.lines)) = tidyBlock t := by
    rw [tidyBlock, Text.lines_closeLines (trimmed_tidyLines t), tidyLines_tidyLines, tidyBlock]
  calc tidy (tidy t) = tidy (tidyBlock t) := tidy_trim _
    _ = tidy (Text.closeLines (tidyLines t.lines)) := tidy_congr_trimEnd hclose
    _ = tidy t := congrArg Text.trim hblock

/-- No line of a tidied text ends in a blank: before a line feed there is another one, or a
character that is not blank. -/
theorem eq_feed_of_tidy {t front rest : Text} {c : Char}
    (h : front ++ c :: '\n' :: rest <:+: tidy t) (hc : Text.isBlank c = true) : c = '\n' := by
  obtain ⟨before, after, hbefore⟩ := h.trans (Text.isInfix_trim (tidyBlock t))
  obtain ⟨feeds, -, hclose⟩ := Text.exists_closeLines (tidyLines t.lines)
  have hsplit : Text.closeLines (tidyLines t.lines) =
      (before ++ front) ++ c :: '\n' :: (rest ++ after ++ feeds) := by
    rw [hclose, ← tidyBlock, ← hbefore]
    simp
  exact Text.eq_feed_of_closeLines (trimmed_tidyLines t) hsplit hc

end Directive

end PromptChain
