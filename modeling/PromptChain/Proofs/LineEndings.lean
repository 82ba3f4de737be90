import PromptChain.Proofs.ExpandedSteps
import PromptChain.Proofs.Tidying

/-! Line endings do not matter: a script whose lines end in a carriage return and a line feed is the
script whose lines end in a line feed. -/
namespace PromptChain

namespace Text

/-- A text with a carriage return before each line feed. -/
def withReturns (t : Text) : Text :=
  t.flatMap fun c => if c = '\n' then ['\r', '\n'] else [c]

theorem withReturns_of_notMem {t : Text} (h : '\n' ∉ t) : withReturns t = t := by
  induction t with
  | nil => rfl
  | cons c t ih =>
    rw [List.mem_cons, not_or] at h
    have hc : c ≠ '\n' := Ne.symm h.1
    have htail : withReturns t = t := ih h.2
    rw [withReturns, List.flatMap_cons, if_neg hc, ← withReturns, htail, List.singleton_append]

theorem withReturns_append_feed {l : Text} (h : '\n' ∉ l) (rest : Text) :
    withReturns (l ++ '\n' :: rest) = l ++ '\r' :: '\n' :: withReturns rest := by
  have hl : withReturns l = l := withReturns_of_notMem h
  rw [withReturns, List.flatMap_append, ← withReturns, hl, List.flatMap_cons, if_pos rfl]
  rfl

end Text

namespace Directive

theorem exists_squeezeFrom_append {blanks : Text} (h : blanks.allBlank = true) (inGap : Bool)
    (s : Text) :
    ∃ more : Text, more.allBlank = true ∧
      squeezeFrom inGap (s ++ blanks) = squeezeFrom inGap s ++ more := by
  induction s generalizing inGap with
  | nil =>
    refine ⟨squeezeFrom inGap blanks, List.all_eq_true.2 fun c hc => ?_, rfl⟩
    rcases mem_squeezeFrom hc with hc | rfl
    · exact List.all_eq_true.1 h c hc
    · rfl
  | cons c s ih =>
    rw [List.cons_append, squeezeFrom, squeezeFrom]
    split_ifs
    · exact ih true
    · obtain ⟨more, hmore, hs⟩ := ih true
      exact ⟨more, hmore, by rw [hs, List.cons_append]⟩
    · obtain ⟨more, hmore, hs⟩ := ih false
      exact ⟨more, hmore, by rw [hs, List.cons_append]⟩

theorem tidyLine_append_of_allBlank {blanks : Text} (h : blanks.allBlank = true) (line : Text) :
    tidyLine (line ++ blanks) = tidyLine line := by
  obtain ⟨more, hmore, hsqueeze⟩ := exists_squeezeFrom_append h false line
  rw [tidyLine, squeeze, hsqueeze, Text.trimEnd_append_of_allBlank hmore]
  rfl

/-- The lines of a text, each tidied on its own. -/
def tidiedLines (t : Text) : List Text :=
  t.lines.map tidyLine

theorem tidy_congr_tidiedLines {s t : Text} (h : tidiedLines s = tidiedLines t) :
    tidy s = tidy t := by
  rw [tidy_eq_trim, tidy_eq_trim, tidyBlock, tidyBlock, tidyLines, tidyLines, ← tidiedLines,
    ← tidiedLines, h]

/-- Whether the line feed takes a carriage return along or not, the tidied line is the same. -/
theorem tidiedLines_line_append_feed {l : Text} (h : '\n' ∉ l) (rest : Text) :
    tidiedLines (l ++ '\n' :: rest) = tidyLine l :: tidiedLines rest := by
  obtain ⟨line, hline, hlines⟩ := Text.exists_lines_append_feed h
  have htidy : tidyLine l = tidyLine line := by
    rcases hline with rfl | rfl
    · rfl
    · exact tidyLine_append_of_allBlank (by decide) line
  rw [tidiedLines, hlines, List.map_cons, htidy, tidiedLines]

/-- A line feed, with blanks before it or without, separates the lines of what stands before from
those of what follows. -/
theorem tidiedLines_append_feed {blanks : Text} (hb : blanks.allBlank = true) (hn : '\n' ∉ blanks)
    (t rest : Text) :
    tidiedLines (t ++ (blanks ++ '\n' :: rest)) = tidiedLines (t ++ ['\n']) ++ tidiedLines rest := by
  induction t using Text.feed_induction with
  | line l h =>
    have hblanks : '\n' ∉ l ++ blanks := by
      rw [List.mem_append]
      exact not_or.2 ⟨h, hn⟩
    rw [← List.append_assoc, tidiedLines_line_append_feed hblanks, tidiedLines_line_append_feed h,
      tidyLine_append_of_allBlank hb]
    rfl
  | feed l more h ih =>
    rw [List.append_assoc, List.cons_append, List.append_assoc, List.cons_append,
      tidiedLines_line_append_feed h, tidiedLines_line_append_feed h, ih, List.cons_append]

/-- Carriage returns before line feeds make no difference, also where tokens without blanks are
replaced by texts of several lines. -/
theorem tidiedLines_replace_withReturns {tokens : List Text} (h : ∀ token ∈ tokens, token.Solid)
    (expand : Text → Text) (t : Text) :
    tidiedLines (replace tokens expand t.withReturns) = tidiedLines (replace tokens expand t) := by
  induction t using Text.feed_induction with
  | line l hl => rw [Text.withReturns_of_notMem hl]
  | feed l rest hl ih =>
    -- No token reaches over a blank, so that the line is replaced on its own. Its replacement may
    -- have lines of its own, and only the last of them gets the carriage return.
    have hreturn : Text.allBlank ['\r'] = true := by decide
    have hfeed : Text.isBlank '\n' = true := by decide
    have hsource : l ++ '\r' :: '\n' :: rest.withReturns =
        (l ++ ['\r']) ++ '\n' :: rest.withReturns := by
      rw [List.append_assoc, List.singleton_append]
    have hend : tidiedLines (replace tokens expand l ++ '\n' :: replace tokens expand rest) =
        tidiedLines (replace tokens expand l ++ ['\n']) ++
          tidiedLines (replace tokens expand rest) :=
      tidiedLines_append_feed rfl List.not_mem_nil _ _
    rw [Text.withReturns_append_feed hl, hsource, replace_append_blank h expand hfeed,
      replace_append_of_allBlank h expand hreturn, List.append_assoc,
      tidiedLines_append_feed hreturn (by decide), ih, replace_append_blank h expand hfeed, hend]

theorem Stepwise.expand_withReturns {table : List Directive} (h : Stepwise table) (source : Text) :
    expand table source.withReturns = expand table source :=
  tidy_congr_tidiedLines (tidiedLines_replace_withReturns (fun _ => h.solid_of_mem) _ source)

end Directive

/-- A source and the same source with a carriage return before each line feed are the same script,
or have the same error. -/
theorem Script.compile_withReturns (source : Text) :
    compile source.withReturns = compile source := by
  have hexpand := Directive.stepwise_standard.expand_withReturns source
  rw [compile, compileWith, hexpand, ← compileWith, ← compile]

end PromptChain
