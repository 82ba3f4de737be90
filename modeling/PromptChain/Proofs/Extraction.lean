import PromptChain.Proofs.Scanning
import PromptChain.Proofs.Scope
import PromptChain.Proofs.Tidying

/-! What the action of a step keeps of the step's text. The steps of a tidied source have no blanks at
the ends of their lines, so that a loop always has something to repeat. -/
namespace PromptChain

namespace Text

theorem allBlank_trim (t : Text) : t.trim.allBlank = t.allBlank := by
  rw [Bool.eq_iff_iff]
  constructor
  · intro h
    have hidem : trimStart (trimStart t) = trimStart t := List.dropWhile_idempotent isBlank t
    rw [← trimEnd_eq_nil_iff, trim, trimEnd_trimEnd, trimEnd_eq_nil_iff, ← trimStart_eq_nil_iff,
      hidem] at h
    exact trimStart_eq_nil_iff.1 h
  · intro h
    rw [trim_of_allBlank h]
    rfl

theorem isInfix_of_mem_lines {t line : Text} (h : line ∈ lines t) : line <:+: t := by
  induction t using feed_induction with
  | line t ht =>
    rw [lines_of_notMem ht] at h
    split_ifs at h
    · cases h
    · exact List.mem_singleton.1 h ▸ List.infix_rfl
  | feed t rest ht ih =>
    obtain ⟨first, hfirst, hlines⟩ := exists_lines_append_feed ht
    rw [hlines, List.mem_cons] at h
    rcases h with rfl | h
    · rcases hfirst with rfl | rfl
      · exact ⟨[], _, rfl⟩
      · exact ⟨[], '\r' :: '\n' :: rest, by simp⟩
    · exact (ih h).trans (List.suffix_append_of_suffix (List.suffix_cons '\n' rest)).isInfix

/-- A part of a text has no placeholders but those of the text. -/
theorem mem_placeholders_of_infix {s t name : Text} (h : s <:+: t) (hn : name ∈ s.placeholders) :
    name ∈ t.placeholders := by
  obtain ⟨hname, hs⟩ := mem_placeholders_iff.1 hn
  exact mem_placeholders_iff.2 ⟨hname, hs.trans h⟩

end Text

theorem Step.isInfix_of_mem_cut {t piece : Text} (h : piece ∈ cut t) : piece <:+: t := by
  induction t using separator_induction with
  | single t ht =>
    rw [cut_eq_singleton ht, List.mem_singleton] at h
    exact h ▸ List.infix_rfl
  | more a b ha ih =>
    rw [cut_append, cut_eq_singleton ha, List.singleton_append, List.mem_cons] at h
    rcases h with rfl | h
    · exact ⟨[], _, rfl⟩
    · have hb : b <:+ a ++ (separator ++ b) := ⟨a ++ separator, by simp⟩
      exact (ih h).trans hb.isInfix

theorem headed?_eq_some {header : Text} {accepts : Char → Bool} {t rest : Text}
    (h : headed? header accepts t = some rest) :
    (header ++ rest) <:+ t ∧ ∃ c more, rest = c :: more ∧ accepts c = true := by
  fun_induction headed? header accepts t with
  | case1 => cases h
  | case2 c t d more hafter haccepts =>
    cases h
    rw [← Text.after?_eq_some_iff.1 hafter]
    exact ⟨List.suffix_rfl, d, more, rfl, haccepts⟩
  | case3 c t d more hafter haccepts ih =>
    obtain ⟨hsuffix, hfirst⟩ := ih h
    exact ⟨hsuffix.trans (List.suffix_cons c t), hfirst⟩
  | case4 c t hafter ih =>
    obtain ⟨hsuffix, hfirst⟩ := ih h
    exact ⟨hsuffix.trans (List.suffix_cons c t), hfirst⟩

theorem endingPlaceholder?_mem {line name : Text} (h : endingPlaceholder? line = some name) :
    name ∈ line.placeholders := by
  fun_induction endingPlaceholder? line with
  | case1 => cases h
  | case2 c t other rest hp hblank =>
    cases h
    rw [Text.placeholders, Text.pieces_of_some hp]
    simp [Piece.name?]
  | case3 c t other rest hp hblank ih =>
    exact Text.mem_placeholders_of_infix (List.suffix_cons c t).isInfix (ih h)
  | case4 c t hp ih =>
    exact Text.mem_placeholders_of_infix (List.suffix_cons c t).isInfix (ih h)

theorem loopSource?_mem {t name : Text} (h : loopSource? t = some name) :
    name ∈ t.placeholders := by
  obtain ⟨line, hline, hname⟩ := List.exists_of_findSome?_eq_some h
  have hmem : line ∈ t.lines := (List.dropWhile_sublist _).mem hline
  exact Text.mem_placeholders_of_infix (Text.isInfix_of_mem_lines hmem) (endingPlaceholder?_mem hname)

theorem isInfix_of_itemTemplate? {t template : Text} (h : itemTemplate? t = some template) :
    template <:+: t := by
  obtain ⟨rest, hrest, rfl⟩ := Option.map_eq_some_iff.1 h
  obtain ⟨hsuffix, -⟩ := headed?_eq_some hrest
  have hline : rest.takeWhile isLineCharacter <:+: rest := (List.takeWhile_prefix _).isInfix
  have hend : rest <:+ t := (List.suffix_append _ rest).trans hsuffix
  exact (Text.isInfix_trim _).trans (hline.trans hend.isInfix)

/-- A text as tidying leaves it: without blanks at its ends, and before a line feed. -/
def Text.Tidied (t : Text) : Prop :=
  t.trim = t ∧
    ∀ front c rest, front ++ c :: '\n' :: rest <:+: t → Text.isBlank c = true → c = '\n'

theorem Step.tidied_of_mem_texts {source text : Text}
    (h : text ∈ Step.texts (Directive.tidy source)) : text.Tidied := by
  obtain ⟨piece, hpiece, rfl⟩ := List.mem_map.1 h
  have hpart := (Text.isInfix_trim piece).trans (isInfix_of_mem_cut hpiece)
  exact ⟨Text.trim_trim piece, fun front c rest hc =>
    Directive.eq_feed_of_tidy (hc.trans hpart)⟩

theorem Text.Tidied.trimEnd_eq_self {t : Text} (h : t.Tidied) : t.trimEnd = t := by
  rw [← h.1, Text.trim, Text.trimEnd_trimEnd]

/-- What a loop repeats is never blank, since its line would end in a blank. -/
theorem Text.Tidied.allBlank_of_itemTemplate? {t template : Text} (ht : t.Tidied)
    (h : itemTemplate? t = some template) : template.allBlank = false := by
  obtain ⟨rest, hrest, rfl⟩ := Option.map_eq_some_iff.1 h
  obtain ⟨⟨front, hfront⟩, c, more, rfl, hc⟩ := headed?_eq_some hrest
  rw [Text.allBlank_trim, Bool.eq_false_iff]
  intro hblank
  have hne : (c :: more).takeWhile isLineCharacter ≠ [] := by
    rw [List.takeWhile_cons_of_pos hc]
    exact List.cons_ne_nil _ _
  obtain ⟨line, d, hline⟩ : ∃ line d, (c :: more).takeWhile isLineCharacter = line ++ [d] :=
    ⟨_, _, (List.dropLast_concat_getLast hne).symm⟩
  have hmem : d ∈ (c :: more).takeWhile isLineCharacter := by simp [hline]
  have hd : Text.isBlank d = true := List.all_eq_true.1 hblank d hmem
  have hsplit : t = front ++ (itemMark ++ [' ']) ++ (line ++ [d]) ++
      (c :: more).dropWhile isLineCharacter := by
    rw [← hline, List.append_assoc _ _ (List.dropWhile _ _), List.takeWhile_append_dropWhile,
      List.append_assoc, hfront]
  cases hafter : (c :: more).dropWhile isLineCharacter with
  | nil =>
    have hend := ht.trimEnd_eq_self
    rw [hsplit, hafter, List.append_nil, ← List.append_assoc] at hend
    rw [Text.isBlank_eq_false_of_trimEnd hend] at hd
    cases hd
  | cons e after =>
    have he : e = '\n' := by
      have hhead := List.head?_dropWhile_not isLineCharacter (c :: more)
      rw [hafter] at hhead
      simpa [isLineCharacter] using hhead
    have hfeed : d = '\n' := by
      refine ht.2 line d after ?_ hd
      rw [hsplit, hafter, he]
      exact ⟨front ++ (itemMark ++ [' ']), [], by simp⟩
    have hchar := List.mem_takeWhile_imp hmem
    rw [hfeed] at hchar
    cases hchar

namespace Step

variable {s : Step} {a : Action}

/-- The action of a step is a text: all of the step's, or the line that a loop repeats. -/
theorem action_eq_ok (h : s.action = .ok a) :
    ∃ kind body, a = .text ⟨kind, s.text.declared, Rules.ofText s.text⟩ body ∧
      (kind = .default ∧ body = s.text.trim ∨
        kind.source? = loopSource? s.text ∧ itemTemplate? s.text = some body) := by
  unfold action at h
  split at h
  · next word template hword htemplate =>
    split_ifs at h
    cases h
    exact ⟨_, template, rfl, Or.inr ⟨rfl, htemplate⟩⟩
  · cases h
    exact ⟨_, s.text.trim, rfl, Or.inl ⟨rfl, rfl⟩⟩

/-- An action uses the names that its step declares. -/
theorem declared_of_mem_usedNames (h : s.action = .ok a) {name : Text} (hn : name ∈ a.usedNames) :
    name ∈ a.heading.declared := by
  obtain ⟨kind, body, rfl, hbody⟩ := action_eq_ok h
  rw [Action.usedNames, List.mem_append] at hn
  apply List.mem_eraseDups.2
  rcases hbody with ⟨rfl, rfl⟩ | ⟨hsource, htemplate⟩
  · have hname : name ∈ s.text.trim.placeholders := by
      simpa [Action.checkedTexts, Action.heading, Kind.source?] using hn
    exact Text.mem_placeholders_of_infix (Text.isInfix_trim s.text) hname
  · rcases hn with hn | hn
    · have hname : name ∈ body.placeholders := by simpa [Action.checkedTexts] using hn
      exact Text.mem_placeholders_of_infix (isInfix_of_itemTemplate? htemplate) hname
    · rw [Action.heading, hsource, Option.mem_toList] at hn
      exact loopSource?_mem hn

/-- The action of a step with a tidied text is blank if the step has no text at all. -/
theorem allBlank_of_action (ht : s.text.Tidied) (h : s.action = .ok a) :
    ∃ heading body, a = .text heading body ∧ heading.declared = s.text.declared ∧
      (body.allBlank = true ↔ s.text = []) := by
  obtain ⟨kind, body, rfl, hbody⟩ := action_eq_ok h
  refine ⟨_, body, rfl, rfl, ?_⟩
  rcases hbody with ⟨rfl, rfl⟩ | ⟨-, htemplate⟩
  · rw [ht.1, ← Text.trimEnd_eq_nil_iff, ht.trimEnd_eq_self]
  · have hblank := ht.allBlank_of_itemTemplate? htemplate
    constructor
    · intro h
      rw [hblank] at h
      cases h
    · intro hnil
      have hpart := isInfix_of_itemTemplate? htemplate
      rw [hnil, List.infix_nil] at hpart
      rw [hpart]
      rfl

end Step

end PromptChain
