import PromptChain.Proofs.ActionGrammar
import PromptChain.Proofs.ExpandedSteps

/-! Where a loop finds the source of its list. The template stands on the line of the first item
header. The search for the source starts at the first line with an item mark, which may be a line
above that one. -/
namespace PromptChain

/-- The line ends in the placeholder of a name, blanks after it apart. -/
def EndsIn (line name : Text) : Prop :=
  isName name = true ∧ ∃ front blanks, line = front ++ ((Piece.placeholder name).source ++ blanks) ∧
    blanks.allBlank = true

theorem not_allBlank_source_append {front name blanks : Text} :
    Text.allBlank (front ++ ((Piece.placeholder name).source ++ blanks)) ≠ true := by
  intro h
  have hbrace := List.all_eq_true.1 h '{' (by simp [Piece.source_placeholder])
  cases hbrace

/-- A line ends in one placeholder at most, and it is found. -/
theorem endingPlaceholder?_eq_some_iff {line name : Text} :
    endingPlaceholder? line = some name ↔ EndsIn line name := by
  constructor
  · intro h
    fun_induction endingPlaceholder? line with
    | case1 => cases h
    | case2 c t other rest hp hblank =>
      cases h
      exact ⟨Text.isName_of_placeholder? hp, [], rest, Text.eq_of_placeholder? hp, hblank⟩
    | case3 c t other rest hp hblank ih =>
      obtain ⟨hname, front, blanks, rfl, hb⟩ := ih h
      exact ⟨hname, c :: front, blanks, rfl, hb⟩
    | case4 c t hp ih =>
      obtain ⟨hname, front, blanks, rfl, hb⟩ := ih h
      exact ⟨hname, c :: front, blanks, rfl, hb⟩
  · rintro ⟨hname, front, blanks, hline, hb⟩
    have hhere := Text.placeholder?_source_append hname blanks
    fun_induction endingPlaceholder? line generalizing front with
    | case1 => simp [Piece.source_placeholder] at hline
    | case2 c t other rest hp hblank =>
      cases front with
      | nil =>
        rw [hline, List.nil_append, hhere] at hp
        cases hp
        rfl
      | cons d front =>
        -- What follows the first placeholder would hold the second one, and is blank.
        rw [Text.eq_of_placeholder? hp] at hline
        obtain ⟨later, rfl⟩ := Text.suffix_of_source_append (Text.isName_of_placeholder? hp)
          (List.cons_ne_nil d front) hline.symm
        exact absurd hblank not_allBlank_source_append
    | case3 c t other rest hp hblank ih =>
      cases front with
      | nil =>
        rw [hline, List.nil_append, hhere] at hp
        cases hp
        exact absurd hb hblank
      | cons d front => exact ih front (List.cons.inj hline).2
    | case4 c t hp ih =>
      cases front with
      | nil =>
        rw [hline, List.nil_append, hhere] at hp
        cases hp
      | cons d front => exact ih front (List.cons.inj hline).2

/-- The source found on lines: the name in which the first line ends that ends in a placeholder. -/
inductive SourceIn : List Text → Option Text → Prop
  | absent {lines : List Text} (free : ∀ line ∈ lines, ∀ name, ¬EndsIn line name) :
      SourceIn lines none
  | found {above below : List Text} {line name : Text} (ends : EndsIn line name)
      (first : ∀ other ∈ above, ∀ name, ¬EndsIn other name) :
      SourceIn (above ++ line :: below) (some name)

theorem endingPlaceholder?_eq_none_iff {line : Text} :
    endingPlaceholder? line = none ↔ ∀ name, ¬EndsIn line name := by
  rw [Option.eq_none_iff_forall_ne_some]
  exact forall_congr' fun name => not_congr endingPlaceholder?_eq_some_iff

theorem sourceIn_iff {lines : List Text} {source : Option Text} :
    SourceIn lines source ↔ lines.findSome? endingPlaceholder? = source := by
  constructor
  · rintro (⟨hnone⟩ | ⟨hends, hfirst⟩)
    · exact List.findSome?_eq_none_iff.2 fun line hl =>
        endingPlaceholder?_eq_none_iff.2 (hnone line hl)
    · exact List.findSome?_eq_some_iff.2 ⟨_, _, _, rfl, endingPlaceholder?_eq_some_iff.2 hends,
        fun other ho => endingPlaceholder?_eq_none_iff.2 (hfirst other ho)⟩
  · intro h
    cases source with
    | none =>
      refine .absent fun line hl => ?_
      exact endingPlaceholder?_eq_none_iff.1 (List.findSome?_eq_none_iff.1 h line hl)
    | some name =>
      obtain ⟨above, line, below, rfl, hline, habove⟩ := List.findSome?_eq_some_iff.1 h
      exact .found (endingPlaceholder?_eq_some_iff.1 hline) fun other ho =>
        endingPlaceholder?_eq_none_iff.1 (habove other ho)

namespace Text

/-- The number of line feeds before a place is the number of lines above the line of the place. -/
theorem exists_lines_above (front : Text) : ∃ (above : List Text) (left : Text),
    above.length = front.count '\n' ∧ '\n' ∉ left ∧
      ∀ back, lines (front ++ back) = above ++ lines (left ++ back) := by
  induction front using feed_induction with
  | line l h => exact ⟨[], l, (List.count_eq_zero.2 h).symm, h, fun back => rfl⟩
  | feed l rest h ih =>
    obtain ⟨above, left, hlength, hleft, hlines⟩ := ih
    obtain ⟨line, -, hfirst⟩ := exists_lines_append_feed h
    refine ⟨line :: above, left, ?_, hleft, fun back => ?_⟩
    · rw [List.length_cons, hlength, List.count_append, List.count_cons_self,
        List.count_eq_zero.2 h, Nat.zero_add]
    · rw [List.append_assoc, List.cons_append, hfirst, hlines, List.cons_append]

theorem trim_append_of_allBlank {blanks : Text} (h : blanks.allBlank = true) (t : Text) :
    trim (t ++ blanks) = trim t := by
  rw [trim, trim, ← trimStart_trimEnd, ← trimStart_trimEnd, trimEnd_append_of_allBlank h]

/-- A text that goes on on its line goes on up to the line's end, a carriage return apart. -/
theorem exists_line_append {w rest : Text} (hw : '\n' ∉ w)
    (hrest : ∃ c more, rest = c :: more ∧ isLineCharacter c = true) :
    ∃ right below, lines (w ++ rest) = (w ++ right) :: below ∧
      right.trim = trim (rest.takeWhile isLineCharacter) := by
  obtain ⟨c, more, rfl, hc⟩ := hrest
  have hrun : (c :: more).takeWhile isLineCharacter = c :: more.takeWhile isLineCharacter :=
    List.takeWhile_cons_of_pos hc
  have hfeed : '\n' ∉ w ++ (c :: more).takeWhile isLineCharacter := by
    apply List.not_mem_append hw
    intro hm
    cases List.mem_takeWhile_imp hm
  have hsplit : w ++ (c :: more) = w ++ (c :: more).takeWhile isLineCharacter ++
      (c :: more).dropWhile isLineCharacter := by
    rw [List.append_assoc, List.takeWhile_append_dropWhile]
  rw [hsplit]
  cases hafter : (c :: more).dropWhile isLineCharacter with
  | nil =>
    refine ⟨(c :: more).takeWhile isLineCharacter, [], ?_, rfl⟩
    rw [List.append_nil, lines_of_notMem hfeed, if_neg (by simp [hrun])]
  | cons d after =>
    have hd : d = '\n' := by
      have hhead := List.head?_dropWhile_not isLineCharacter (c :: more)
      rw [hafter] at hhead
      simpa [isLineCharacter] using hhead
    obtain ⟨line, hline, hlines⟩ := exists_lines_append_feed hfeed
    rw [hd, hlines]
    rcases hline with hline | hline
    · exact ⟨_, lines after, by rw [hline], rfl⟩
    · -- The line feed takes a carriage return along, which is not part of the template either.
      obtain ⟨run, e, hrune⟩ : ∃ run e, (c :: more).takeWhile isLineCharacter = run ++ [e] :=
        ⟨_, _, (List.dropLast_concat_getLast (by simp [hrun])).symm⟩
      rw [hrune, ← List.append_assoc] at hline
      obtain ⟨hwrun, he⟩ := List.append_inj' hline rfl
      refine ⟨run, lines after, by rw [hwrun], ?_⟩
      rw [hrune, he, trim_append_of_allBlank (by decide)]

end Text

/-- The line of a text on which the template of a loop stands after the first item header, with the
lines above it and below it. -/
structure HeaderLine (t : Text) (above : List Text) (line : Text) (below : List Text)
    (template : Text) : Prop where
  lines : t.lines = above ++ line :: below
  place : ∃ front rest, FirstPlace (Headed itemHeader isLineCharacter) t front (itemHeader ++ rest) ∧
    above.length = front.count '\n'
  template : ∃ left right, line = left ++ (itemHeader ++ right) ∧ template = right.trim

theorem exists_headerLine {t template : Text} (h : itemTemplate? t = some template) :
    ∃ above line below, HeaderLine t above line below template := by
  obtain ⟨front, rest, hplace, rfl⟩ := itemTemplate?_eq_some_iff.1 h
  obtain ⟨above, left, hlength, hleft, hlines⟩ := Text.exists_lines_above front
  have hrest : ∃ c more, rest = c :: more ∧ isLineCharacter c = true := by
    obtain ⟨c, more, htext, hc⟩ := hplace.holds
    exact ⟨c, more, List.append_cancel_left htext, hc⟩
  have hfeed : '\n' ∉ left ++ itemHeader := List.not_mem_append hleft (by decide)
  obtain ⟨right, below, hline, htrim⟩ := Text.exists_line_append hfeed hrest
  refine ⟨above, left ++ (itemHeader ++ right), below, ?_, ⟨front, rest, hplace, hlength⟩,
    left, right, rfl, htrim.symm⟩
  rw [hplace.split, hlines, ← List.append_assoc, hline, List.append_assoc]

/-- The lines from the first one with an item mark on. -/
def fromMark (lines : List Text) : List Text :=
  lines.dropWhile fun line => !Text.has itemMark line

section Search

variable {t template : Text} {above below : List Text} {line : Text}

theorem HeaderLine.has_itemMark (h : HeaderLine t above line below template) :
    Text.has itemMark line = true := by
  obtain ⟨left, right, rfl, -⟩ := h.template
  apply Text.has_append_of_has
  rw [itemHeader, List.append_assoc]
  exact Text.has_of_after? (Text.after?_append itemMark _)

theorem HeaderLine.fromMark_lines (h : HeaderLine t above line below template) :
    fromMark t.lines = fromMark above ++ line :: below := by
  rw [h.lines, fromMark, fromMark, List.dropWhile_append]
  split_ifs with hempty
  · rw [List.isEmpty_iff.1 hempty, List.dropWhile_cons_of_neg (by simp [h.has_itemMark])]
    rfl
  · rfl

theorem HeaderLine.loopSource?_eq (h : HeaderLine t above line below template) :
    loopSource? t = ((fromMark above).findSome? endingPlaceholder?).or
      ((line :: below).findSome? endingPlaceholder?) := by
  have hsearch : loopSource? t = (fromMark t.lines).findSome? endingPlaceholder? := rfl
  rw [hsearch, h.fromMark_lines, List.findSome?_append]

/-- The search from the first mark finds what a search from the header line finds, unless a line
between ends in another name. -/
theorem HeaderLine.sourceIn_iff (h : HeaderLine t above line below template) :
    SourceIn (line :: below) (loopSource? t) ↔
      ∀ name, SourceIn (fromMark above) (some name) → SourceIn (line :: below) (some name) := by
  simp only [PromptChain.sourceIn_iff, h.loopSource?_eq]
  cases (fromMark above).findSome? endingPlaceholder? with
  | none => simp
  | some name =>
    constructor
    · intro hlower other hother
      rw [← hother]
      exact hlower
    · intro hlower
      exact hlower name rfl

theorem fromMark_eq_nil (h : ∀ other ∈ above, Text.has itemMark other = false) :
    fromMark above = [] := by
  rw [fromMark, List.dropWhile_eq_nil_iff]
  intro other ho
  rw [h other ho]
  rfl

end Search

/-- Where the source of a loop comes from. It is searched from the first line with an item mark on.
A search from the line of the template finds the same source exactly if the lines between these two
lead to no other, and so if no line above the template's has the mark. -/
theorem loop_source_from_header_iff {s : Step} {source : Option Text} {aggregate : Bool}
    {declared : List Text} {rules : Rules} {body : Text}
    (h : s.action = .ok (.text ⟨.loop source aggregate, declared, rules⟩ body)) :
    ∃ above line below, HeaderLine s.text above line below body ∧
      SourceIn (fromMark above ++ line :: below) source ∧
      (SourceIn (line :: below) source ↔
        ∀ name, SourceIn (fromMark above) (some name) → SourceIn (line :: below) (some name)) ∧
      ((∀ other ∈ above, Text.has itemMark other = false) → SourceIn (line :: below) source) := by
  obtain ⟨kind, template, ha, hread⟩ := Step.action_eq_ok h
  cases ha
  rcases hread with ⟨hdefault, -⟩ | ⟨hsource, htemplate⟩
  · cases hdefault
  · obtain rfl : source = loopSource? s.text := hsource
    obtain ⟨above, line, below, hline⟩ := exists_headerLine htemplate
    have hiff := hline.sourceIn_iff
    refine ⟨above, line, below, hline, ?_, hiff, fun hmark => hiff.2 ?_⟩
    · rw [sourceIn_iff, List.findSome?_append, hline.loopSource?_eq]
    · intro name hname
      rw [fromMark_eq_nil hmark, sourceIn_iff] at hname
      cases hname

theorem loop_source_from_header_iff_selfReferring :
    ∃ above line below,
      HeaderLine "{{step_2}}\nACTION: Loop\nForEveryItemDoThis: {{x}}".toList above line below
        "{{x}}".toList ∧
      SourceIn (fromMark above ++ line :: below) (some "x".toList) ∧
      (SourceIn (line :: below) (some "x".toList) ↔ ∀ name,
        SourceIn (fromMark above) (some name) → SourceIn (line :: below) (some name)) := by
  obtain ⟨above, line, below, hline, hfound, hiff, -⟩ :=
    loop_source_from_header_iff Script.action_selfReferring
  exact ⟨above, line, below, hline, hfound, hiff⟩

/-- A step with an item mark that is no header, above the header of its template. -/
def markedTwice : Step :=
  ⟨2, "ACTION: Loop\nForEveryItemDoThis:{{a}}\nForEveryItemDoThis: {{b}}".toList⟩

set_option maxRecDepth 4000 in
theorem action_markedTwice : markedTwice.action =
    .ok (.text ⟨.loop (some "a".toList) true, ["a".toList, "b".toList], {}⟩ "{{b}}".toList) := by
  have hmany : manyItems? markedTwice.text = none := by decide
  simp only [Step.action, hmany]
  cbv

theorem headed?_markedTwice :
    headed? itemHeader isLineCharacter markedTwice.text = some "{{b}}".toList := by
  cbv

theorem lines_markedTwice : markedTwice.text.lines =
    ["ACTION: Loop".toList, "ForEveryItemDoThis:{{a}}".toList,
      "ForEveryItemDoThis: {{b}}".toList] := by
  cbv

theorem headerLine_markedTwice : HeaderLine markedTwice.text
    ["ACTION: Loop".toList, "ForEveryItemDoThis:{{a}}".toList]
    "ForEveryItemDoThis: {{b}}".toList [] "{{b}}".toList := by
  obtain ⟨front, hplace⟩ := headed?_eq_some_iff.1 headed?_markedTwice
  have hfront : front = "ACTION: Loop\nForEveryItemDoThis:{{a}}\n".toList :=
    List.append_cancel_right (hplace.split.symm.trans rfl)
  refine ⟨lines_markedTwice, ⟨front, _, hplace, ?_⟩, [], "{{b}}".toList, rfl, by decide⟩
  rw [hfront]
  rfl

/-- A line above the template's gives the source, while the template's own line ends in another. -/
theorem loop_source_above_header :
    markedTwice.action = .ok (.text ⟨.loop (some "a".toList) true, ["a".toList, "b".toList], {}⟩
      "{{b}}".toList) ∧
    ∃ above line below, HeaderLine markedTwice.text above line below "{{b}}".toList ∧
      SourceIn (line :: below) (some "b".toList) ∧ ¬SourceIn (line :: below) (some "a".toList) := by
  have hfound : ["ForEveryItemDoThis: {{b}}".toList].findSome? endingPlaceholder? =
      some "b".toList := by cbv
  refine ⟨action_markedTwice, _, _, _, headerLine_markedTwice, sourceIn_iff.2 hfound, fun h => ?_⟩
  have hsame := hfound.symm.trans (sourceIn_iff.1 h)
  cases hsame

end PromptChain
