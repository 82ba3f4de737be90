import PromptChain.Directive.Standard
import PromptChain.Proofs.Splitting

/-! Expanding a script step by step: directives and blanks on one side of a separator are treated the
same whatever stands on the other. -/
namespace PromptChain

namespace Text

theorem lines_cons {c : Char} {t : Text} (hn : c ≠ '\n') (hr : ∀ u, c = '\r' → t ≠ '\n' :: u) :
    lines (c :: t) = push c (lines t) := by
  rw [lines]
  · exact hn
  · exact hr

/-- A text is lines that a line feed ends and what stands after them. More text that does not start
with a line feed goes on from there. -/
theorem exists_lines_append (t : Text) :
    ∃ closed last, lines t = closed ++ (if last = [] then [] else [last]) ∧
      ∀ (c : Char) (more first : Text) (others : List Text), c ≠ '\n' →
        lines (c :: more) = first :: others →
          lines (t ++ c :: more) = closed ++ (last ++ first) :: others := by
  fun_induction lines t with
  | case1 => exact ⟨[], [], rfl, fun c more first others _ h => h⟩
  | case2 t ih =>
    obtain ⟨closed, last, hlines, happend⟩ := ih
    refine ⟨[] :: closed, last, by rw [hlines]; rfl, ?_⟩
    intro c more first others hc h
    rw [List.cons_append, lines, happend c more first others hc h]
    rfl
  | case3 t ih =>
    obtain ⟨closed, last, hlines, happend⟩ := ih
    refine ⟨[] :: closed, last, by rw [hlines]; rfl, ?_⟩
    intro c more first others hc h
    rw [List.cons_append, List.cons_append, lines, happend c more first others hc h]
    rfl
  | case4 d t hn hr ih =>
    obtain ⟨closed, last, hlines, happend⟩ := ih
    have hmore : ∀ c more, c ≠ '\n' →
        lines (d :: (t ++ c :: more)) = push d (lines (t ++ c :: more)) := by
      intro c more hc
      apply lines_cons hn
      intro u hd hu
      cases t with
      | nil => exact hc (List.cons.inj hu).1
      | cons e t =>
        obtain ⟨rfl, -⟩ := List.cons.inj hu
        exact hr t hd rfl
    -- The character goes to the first closed line, or to the open one if no line is closed.
    cases closed with
    | nil =>
      refine ⟨[], d :: last, ?_, ?_⟩
      · rw [hlines]
        by_cases hl : last = [] <;> simp [hl, push]
      · intro c more first others hc h
        rw [List.cons_append, hmore c more hc, happend c more first others hc h]
        rfl
    | cons line closed =>
      refine ⟨(d :: line) :: closed, last, by rw [hlines]; rfl, ?_⟩
      intro c more first others hc h
      rw [List.cons_append, hmore c more hc, happend c more first others hc h]
      rfl

/-- A text without blanks, and not empty, is kept as it is when texts are tidied. -/
def Solid (w : Text) : Prop :=
  w ≠ [] ∧ ∀ c ∈ w, isBlank c = false

-- By `List.all`: what holds of all characters may be decided by trying each character there is.
instance (w : Text) : Decidable (Solid w) :=
  decidable_of_iff (w ≠ [] ∧ (w.all fun c => !isBlank c) = true) (by simp [Solid])

theorem solid_separator : Solid Step.separator := by
  decide

theorem foldr_push_cons (w line : Text) (rest : List Text) :
    w.foldr push (line :: rest) = (w ++ line) :: rest := by
  induction w with
  | nil => rfl
  | cons c w ih => rw [List.foldr_cons, ih, push, List.cons_append]

theorem lines_append_of_notBlank {w : Text} (h : ∀ c ∈ w, isBlank c = false) (t : Text) :
    lines (w ++ t) = w.foldr push (lines t) := by
  induction w with
  | nil => rfl
  | cons c w ih =>
    have hc : isBlank c = false := h c List.mem_cons_self
    have hn : c ≠ '\n' := by rintro rfl; cases hc
    have hr : c ≠ '\r' := by rintro rfl; cases hc
    rw [List.cons_append, lines_cons hn (fun u he => absurd he hr), List.foldr_cons,
      ih fun d hd => h d (List.mem_cons_of_mem c hd)]

/-- A solid text stands on the first line of what it starts, before the first line of what follows
it. -/
theorem exists_lines_solid_append {w : Text} (hw : Solid w) (t : Text) :
    ∃ first others, lines (w ++ t) = (w ++ first) :: others ∧
      (lines t = first :: others ∨ lines t = [] ∧ first = [] ∧ others = []) := by
  rw [lines_append_of_notBlank hw.2]
  cases lines t with
  | nil =>
    obtain ⟨c, w, rfl⟩ := List.exists_cons_of_ne_nil hw.1
    have hlast : (c :: w).foldr push [] = [c :: w] := by
      rcases List.eq_nil_or_concat w with rfl | ⟨front, d, rfl⟩
      · rfl
      · rw [List.concat_eq_append, ← List.cons_append, List.foldr_append]
        exact foldr_push_cons (c :: front) [d] []
    exact ⟨[], [], by rw [hlast, List.append_nil], Or.inr ⟨rfl, rfl, rfl⟩⟩
  | cons line rest => exact ⟨line, rest, foldr_push_cons w line rest, Or.inl rfl⟩

theorem trimEnd_trimEnd (t : Text) : trimEnd (trimEnd t) = trimEnd t := by
  obtain ⟨blanks, hb, ht⟩ := exists_trimEnd_append t
  have htrim := trimEnd_append_of_allBlank hb (trimEnd t)
  rw [← ht] at htrim
  exact htrim.symm

theorem Solid.trimEnd_append {w : Text} (hw : Solid w) (s t : Text) :
    trimEnd (s ++ (w ++ t)) = s ++ (w ++ trimEnd t) := by
  obtain ⟨front, c, rfl⟩ : ∃ front c, w = front ++ [c] :=
    ⟨w.dropLast, w.getLast hw.1, (List.dropLast_concat_getLast hw.1).symm⟩
  have hc : isBlank c = false := hw.2 c (by simp)
  have hsplit : ∀ u, s ++ (front ++ [c] ++ u) = (s ++ front) ++ c :: u := by simp
  rw [hsplit, hsplit, trimEnd_append_cons hc]

def closeLines (lines : List Text) : Text :=
  lines.flatMap (· ++ ['\n'])

theorem closeLines_cons (line : Text) (lines : List Text) :
    closeLines (line :: lines) = line ++ '\n' :: closeLines lines := by
  rw [closeLines, List.flatMap_cons, List.append_assoc]
  rfl

theorem intercalate_append_cons (lines : List Text) (line : Text) (more : List Text) :
    ['\n'].intercalate (lines ++ line :: more) =
      closeLines lines ++ ['\n'].intercalate (line :: more) := by
  induction lines with
  | nil => rfl
  | cons first lines ih =>
    obtain ⟨second, others, hs⟩ := List.exists_cons_of_ne_nil
      (List.append_ne_nil_of_right_ne_nil lines (List.cons_ne_nil line more))
    rw [List.cons_append, hs, List.intercalate_cons_cons, ← hs, ih, closeLines_cons]
    simp

theorem intercalate_append_head (s t : Text) (lines : List Text) :
    ['\n'].intercalate ((s ++ t) :: lines) = s ++ ['\n'].intercalate (t :: lines) := by
  cases lines with
  | nil => simp
  | cons line lines => simp

theorem exists_closeLines (lines : List Text) :
    ∃ feeds : Text, feeds.allBlank = true ∧ closeLines lines = ['\n'].intercalate lines ++ feeds := by
  rcases List.eq_nil_or_concat lines with rfl | ⟨front, line, rfl⟩
  · exact ⟨[], rfl, rfl⟩
  · refine ⟨['\n'], by decide, ?_⟩
    rw [List.concat_eq_append, intercalate_append_cons, List.intercalate_singleton]
    simp [closeLines]

theorem trimEnd_intercalate (lines : List Text) :
    trimEnd (['\n'].intercalate lines) = trimEnd (closeLines lines) := by
  obtain ⟨feeds, hf, hclose⟩ := exists_closeLines lines
  rw [hclose, trimEnd_append_of_allBlank hf]

end Text

namespace Directive

theorem squeezeFrom_append {c : Char} (hc : isGap c = false) (inGap : Bool) (s t : Text) :
    squeezeFrom inGap (s ++ c :: t) = squeezeFrom inGap s ++ c :: squeezeFrom false t := by
  induction s generalizing inGap with
  | nil => simp [squeezeFrom, hc]
  | cons d s ih =>
    rw [List.cons_append, squeezeFrom, squeezeFrom]
    split_ifs <;> simp [ih]

theorem isGap_of_notBlank {c : Char} (h : Text.isBlank c = false) : isGap c = false := by
  rw [isGap, Bool.or_eq_false_iff, beq_eq_false_iff_ne, beq_eq_false_iff_ne]
  constructor <;> rintro rfl <;> cases h

theorem squeeze_append_of_notBlank {w : Text} (h : ∀ c ∈ w, Text.isBlank c = false) (t : Text) :
    squeeze (w ++ t) = w ++ squeeze t := by
  induction w with
  | nil => rfl
  | cons c w ih =>
    have hc : isGap c = false := isGap_of_notBlank (h c List.mem_cons_self)
    have hhead := squeezeFrom_append hc false [] (w ++ t)
    exact hhead.trans (congrArg (c :: ·) (ih fun d hd => h d (List.mem_cons_of_mem c hd)))

theorem squeeze_append_solid {w : Text} (hw : w.Solid) (s t : Text) :
    squeeze (s ++ (w ++ t)) = squeeze s ++ (w ++ squeeze t) := by
  obtain ⟨c, w, rfl⟩ := List.exists_cons_of_ne_nil hw.1
  have hc : isGap c = false := isGap_of_notBlank (hw.2 c List.mem_cons_self)
  have hhead : squeeze (s ++ c :: (w ++ t)) = squeeze s ++ c :: squeeze (w ++ t) :=
    squeezeFrom_append hc false s _
  rw [List.cons_append, hhead,
    squeeze_append_of_notBlank fun d hd => hw.2 d (List.mem_cons_of_mem c hd)]
  rfl

def tidyLine (line : Text) : Text :=
  (squeeze line).trimEnd

theorem tidyLine_append_solid {w : Text} (hw : w.Solid) (s t : Text) :
    tidyLine (s ++ (w ++ t)) = squeeze s ++ (w ++ tidyLine t) := by
  rw [tidyLine, squeeze_append_solid hw, hw.trimEnd_append, tidyLine]

/-- A line that is not empty is kept, and the lines after it are as if they were the first. -/
theorem dropRepeatedEmpty_append {line : Text} (h : line ≠ []) (afterEmpty : Bool)
    (lines more : List Text) :
    dropRepeatedEmpty afterEmpty (lines ++ line :: more) =
      dropRepeatedEmpty afterEmpty lines ++ line :: dropRepeatedEmpty false more := by
  induction lines generalizing afterEmpty with
  | nil =>
    have hempty : line.isEmpty = false := List.isEmpty_eq_false_iff.2 h
    simp [dropRepeatedEmpty, hempty]
  | cons first lines ih =>
    rw [List.cons_append, dropRepeatedEmpty, dropRepeatedEmpty]
    split_ifs <;> simp [ih]

theorem trimEnd_closeLines_concat (afterEmpty : Bool) (lines : List Text) (line : Text) :
    Text.trimEnd (Text.closeLines (dropRepeatedEmpty afterEmpty (lines ++ [line]))) =
      Text.trimEnd (Text.closeLines (dropRepeatedEmpty afterEmpty lines) ++ line) := by
  induction lines generalizing afterEmpty with
  | nil =>
    simp only [List.nil_append, dropRepeatedEmpty]
    split_ifs with h
    · have hline : line = [] := List.isEmpty_iff.1 (Bool.and_eq_true_iff.1 h).1
      rw [hline]
      rfl
    · have hclose : Text.closeLines [line] = line ++ ['\n'] := Text.closeLines_cons line []
      have hfeed : Text.allBlank ['\n'] = true := by decide
      rw [hclose, Text.trimEnd_append_of_allBlank hfeed]
      rfl
  | cons first lines ih =>
    rw [List.cons_append, dropRepeatedEmpty, dropRepeatedEmpty]
    split_ifs
    · exact ih true
    · rw [Text.closeLines_cons, Text.closeLines_cons, List.append_assoc]
      exact Text.trimEnd_append_congr (Text.trimEnd_append_congr (ih _) ['\n']) first

def tidyLines (lines : List Text) : List Text :=
  dropRepeatedEmpty false (lines.map tidyLine)

theorem texts_tidy (t : Text) :
    Step.texts (tidy t) = Step.texts (['\n'].intercalate (tidyLines t.lines)) :=
  Step.texts_trim _

theorem trimEnd_intercalate_tidyLines (closed : List Text) (last : Text) :
    Text.trimEnd (['\n'].intercalate (tidyLines (closed ++ if last = [] then [] else [last]))) =
      Text.trimEnd (Text.closeLines (tidyLines closed) ++ squeeze last) := by
  have htrim : Text.trimEnd (tidyLine last) = Text.trimEnd (squeeze last) :=
    Text.trimEnd_trimEnd _
  rw [Text.trimEnd_intercalate, ← Text.trimEnd_append_congr htrim, tidyLines, List.map_append]
  split_ifs with hlast
  · rw [hlast, List.map_nil, List.append_nil]
    exact congrArg Text.trimEnd (List.append_nil _).symm
  · exact trimEnd_closeLines_concat false _ _

/-- What stands before a solid text on its line and above is tidied on its own, and so is what
stands after it. -/
theorem intercalate_tidyLines_solid {w : Text} (hw : w.Solid) (closed : List Text)
    (last first : Text) (others : List Text) :
    ['\n'].intercalate (tidyLines (closed ++ (last ++ (w ++ first)) :: others)) =
      Text.closeLines (tidyLines closed) ++ squeeze last ++
        (w ++ ['\n'].intercalate (tidyLine first :: tidyLines others)) := by
  have hline : squeeze last ++ (w ++ tidyLine first) ≠ [] :=
    List.append_ne_nil_of_right_ne_nil _ (List.append_ne_nil_of_left_ne_nil hw.1 _)
  rw [tidyLines, List.map_append, List.map_cons, tidyLine_append_solid hw,
    dropRepeatedEmpty_append hline, Text.intercalate_append_cons, Text.intercalate_append_head,
    Text.intercalate_append_head, List.append_assoc]
  rfl

/-- An empty line before lines that start with empty ones makes no difference but at the start. -/
theorem trimStart_intercalate_tidyLines (first : Text) (others : List Text) :
    Text.trimStart (['\n'].intercalate (tidyLine first :: tidyLines others)) =
      Text.trimStart (['\n'].intercalate (tidyLines (first :: others))) := by
  rw [tidyLines, tidyLines, List.map_cons, dropRepeatedEmpty, Bool.and_false]
  cases hfirst : (tidyLine first).isEmpty with
  | false => rfl
  | true =>
    rw [List.isEmpty_iff.1 hfirst]
    cases others with
    | nil => rfl
    | cons second others =>
      rw [List.map_cons, dropRepeatedEmpty, dropRepeatedEmpty, Bool.and_false, Bool.and_true]
      cases hsecond : (tidyLine second).isEmpty with
      | false => rfl
      | true =>
        rw [List.isEmpty_iff.1 hsecond]
        cases dropRepeatedEmpty true (others.map tidyLine) <;> rfl

/-- Tidying treats each side of a separator on its own. -/
theorem texts_tidy_append (a b : Text) :
    Step.texts (tidy (a ++ (Step.separator ++ b))) = Step.texts (tidy a) ++ Step.texts (tidy b) := by
  obtain ⟨closed, last, hshort, hlong⟩ := Text.exists_lines_append a
  obtain ⟨first, others, hsep, hb⟩ := Text.exists_lines_solid_append Text.solid_separator b
  have hlines : Text.lines (a ++ (Step.separator ++ b)) =
      closed ++ (last ++ (Step.separator ++ first)) :: others :=
    hlong '-' (">>>>".toList ++ b) _ others (by decide) hsep
  have hleft : Step.texts (tidy a) =
      Step.texts (Text.closeLines (tidyLines closed) ++ squeeze last) := by
    rw [texts_tidy, hshort, ← Step.texts_trimEnd, trimEnd_intercalate_tidyLines,
      Step.texts_trimEnd]
  have hright : Step.texts (tidy b) =
      Step.texts (['\n'].intercalate (tidyLine first :: tidyLines others)) := by
    rw [texts_tidy]
    rcases hb with hb | ⟨hb, rfl, rfl⟩
    · rw [hb, ← Step.texts_trimStart, ← trimStart_intercalate_tidyLines, Step.texts_trimStart]
    · rw [hb]
      rfl
  rw [texts_tidy, hlines, intercalate_tidyLines_solid Text.solid_separator, Step.texts_append,
    hleft, hright]

/-- A token that has no part in common with a separator beside it. -/
def Clear (token : Text) : Prop :=
  '>' ∉ token ∧ token.getLast? ≠ some '-'

instance (token : Text) : Decidable (Clear token) :=
  inferInstanceAs (Decidable (_ ∧ _))

theorem Clear.after?_append_separator {token : Text} (h : Clear token) (t rest : Text) :
    Text.after? token (t ++ (Step.separator ++ rest)) =
      (Text.after? token t).map (· ++ (Step.separator ++ rest)) := by
  obtain ⟨hm, hl⟩ := h
  induction token generalizing t with
  | nil => rfl
  | cons m token ih =>
    rw [List.mem_cons, not_or] at hm
    cases t with
    | nil =>
      -- The token would have to go on with the second character of the separator, or end before it.
      change Text.after? (m :: token) ('-' :: '>' :: _) = none
      rw [Text.after?]
      split_ifs with h
      · cases token with
        | nil => exact absurd (congrArg some h) hl
        | cons m' token => exact if_neg fun h' => hm.2 (by simp [h'])
      · rfl
    | cons c t =>
      have hlast : token.getLast? ≠ some '-' := by
        cases token with
        | nil => simp
        | cons m' token => rwa [List.getLast?_cons_cons] at hl
      rw [List.cons_append, Text.after?, Text.after?]
      split_ifs
      · exact ih t hm.2 hlast
      · rfl

/-- No token reaches into the text from what may stand before it. -/
def Bars (tokens : List Text) (x : Text) : Prop :=
  ∀ token ∈ tokens, ∀ t, Text.after? token (t ++ x) = (Text.after? token t).map (· ++ x)

theorem bars_separator_append {tokens : List Text} (h : ∀ token ∈ tokens, Clear token)
    (rest : Text) : Bars tokens (Step.separator ++ rest) :=
  fun token ht t => (h token ht).after?_append_separator t rest

theorem Bars.leading?_append {tokens : List Text} {x : Text} (h : Bars tokens x) (t : Text) :
    leading? tokens (t ++ x) =
      (leading? tokens t).map fun (token, more) => (token, more ++ x) := by
  induction tokens with
  | nil => rfl
  | cons token tokens ih =>
    have hrest := ih fun other ho => h other (List.mem_cons_of_mem token ho)
    rw [leading?, leading?] at hrest ⊢
    rw [List.findSome?_cons, List.findSome?_cons, hrest, h token List.mem_cons_self]
    split_ifs
    · rfl
    · cases Text.after? token t <;> rfl

theorem replace_of_some {tokens : List Text} {expand : Text → Text} {t token rest : Text}
    (h : leading? tokens t = some (token, rest)) :
    replace tokens expand t = expand token ++ replace tokens expand rest := by
  rw [replace]
  split
  · next token' rest' h' =>
    rw [h] at h'
    cases h'
    rfl
  · next h' =>
    rw [h] at h'
    cases h'

theorem replace_cons_of_none {tokens : List Text} {expand : Text → Text} {c : Char} {t : Text}
    (h : leading? tokens (c :: t) = none) :
    replace tokens expand (c :: t) = c :: replace tokens expand t := by
  rw [replace]
  split
  · next token' rest' h' =>
    rw [h] at h'
    cases h'
  · rfl

theorem leading?_nil (tokens : List Text) : leading? tokens [] = none := by
  apply List.findSome?_eq_none_iff.2
  intro token _
  cases token <;> rfl

theorem leading?_cons_of_notMem {tokens : List Text} {c : Char} (h : ∀ token ∈ tokens, c ∉ token)
    (t : Text) : leading? tokens (c :: t) = none := by
  apply List.findSome?_eq_none_iff.2
  intro token hm
  cases token with
  | nil => rfl
  | cons m token =>
    have hafter : Text.after? (m :: token) (c :: t) = none :=
      Text.after?_append_of_notMem (t := []) rfl (h _ hm) t
    rw [hafter]
    rfl

theorem replace_nil (tokens : List Text) (expand : Text → Text) : replace tokens expand [] = [] := by
  rw [replace]
  split
  · next token rest h =>
    rw [leading?_nil] at h
    cases h
  · rfl

/-- Directives are expanded on each side of a place that no token reaches over. -/
theorem Bars.replace_append {tokens : List Text} {x : Text} (h : Bars tokens x)
    (expand : Text → Text) (a : Text) :
    replace tokens expand (a ++ x) = replace tokens expand a ++ replace tokens expand x := by
  fun_induction replace tokens expand a with
  | case1 a token rest hl ih =>
    have hlong := h.leading?_append a
    rw [hl] at hlong
    rw [replace_of_some hlong, ih, List.append_assoc]
  | case2 => rfl
  | case3 c rest hl ih =>
    have hlong : leading? tokens (c :: (rest ++ x)) = none := by
      have happend := h.leading?_append (c :: rest)
      rwa [hl] at happend
    rw [List.cons_append, replace_cons_of_none hlong, ih, List.cons_append]

theorem replace_append_separator {tokens : List Text} {expand : Text → Text}
    (h : ∀ token ∈ tokens, Clear token) (a b : Text) :
    replace tokens expand (a ++ (Step.separator ++ b)) =
      replace tokens expand a ++ (Step.separator ++ replace tokens expand b) := by
  have hhead : leading? tokens ('-' :: '>' :: '>' :: '>' :: '>' :: b) = none := by
    have happend := (bars_separator_append h b).leading?_append []
    rwa [leading?_nil] at happend
  have hbody : ∀ t, leading? tokens ('>' :: t) = none :=
    leading?_cons_of_notMem fun token hm => (h token hm).1
  have hsep : replace tokens expand ('-' :: '>' :: '>' :: '>' :: '>' :: b) =
      Step.separator ++ replace tokens expand b := by
    rw [replace_cons_of_none hhead]
    iterate 4 rw [replace_cons_of_none (hbody _)]
    rfl
  rw [(bars_separator_append h b).replace_append]
  exact congrArg (replace tokens expand a ++ ·) hsep

theorem texts_expand_append {table : List Directive} (h : ∀ d ∈ table, Clear d.token) (a b : Text) :
    Step.texts (expand table (a ++ (Step.separator ++ b))) =
      Step.texts (expand table a) ++ Step.texts (expand table b) := by
  have htokens : ∀ token ∈ tokens table, Clear token := by
    intro token ht
    obtain ⟨d, hd, rfl⟩ := exists_of_mem_tokens ht
    exact h d hd
  rw [expand, replace_append_separator htokens]
  exact texts_tidy_append _ _

theorem clear_standard : ∀ d ∈ standard, Clear d.token := by
  decide

end Directive

end PromptChain
