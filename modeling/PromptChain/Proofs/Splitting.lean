import Mathlib.Tactic.SplitIfs
import PromptChain.Step

/-! Cutting a script at its separators. -/
namespace PromptChain

namespace Text

theorem push_append {c : Char} {l : List Text} (h : l ≠ []) (l' : List Text) :
    push c (l ++ l') = push c l ++ l' := by
  cases l with
  | nil => exact absurd rfl h
  | cons piece l => rfl

/-- A character that is not in a marker ends the search for it. -/
theorem after?_append_cons {marker : Text} {c : Char} (hc : c ∉ marker) (t rest : Text) :
    after? marker (t ++ c :: rest) = (after? marker t).map (· ++ c :: rest) := by
  induction marker generalizing t with
  | nil => rfl
  | cons m marker ih =>
    rw [List.mem_cons, not_or] at hc
    cases t with
    | nil => exact if_neg (Ne.symm hc.1)
    | cons d t =>
      rw [List.cons_append, after?, after?]
      split_ifs
      · exact ih hc.2 t
      · rfl

theorem after?_append_of_notMem {marker t : Text} {c : Char} (h : after? marker t = none)
    (hc : c ∉ marker) (rest : Text) : after? marker (t ++ c :: rest) = none := by
  rw [after?_append_cons hc, h]
  rfl

theorem allBlank_cons {c : Char} {t : Text} :
    allBlank (c :: t) = true ↔ isBlank c = true ∧ t.allBlank = true := by
  rw [allBlank, allBlank, List.all_cons, Bool.and_eq_true]

theorem trimEnd_cons (c : Char) (t : Text) :
    trimEnd (c :: t) = if trimEnd t = [] ∧ isBlank c = true then [] else c :: trimEnd t := by
  rw [trimEnd]
  cases trimEnd t with
  | nil => by_cases hc : isBlank c = true <;> simp [hc]
  | cons d r => simp

theorem trimEnd_append_congr {s s' : Text} (h : trimEnd s = trimEnd s') (t : Text) :
    trimEnd (t ++ s) = trimEnd (t ++ s') := by
  induction t with
  | nil => exact h
  | cons c t ih => rw [List.cons_append, List.cons_append, trimEnd_cons, trimEnd_cons, ih]

theorem trimEnd_append_of_allBlank {blanks : Text} (h : blanks.allBlank = true) (t : Text) :
    trimEnd (t ++ blanks) = trimEnd t := by
  have hnil : trimEnd blanks = trimEnd [] := trimEnd_eq_nil_iff.2 h
  rw [trimEnd_append_congr hnil, List.append_nil]

/-- Nothing is trimmed before a character that is not blank. -/
theorem trimEnd_append_cons {c : Char} (hc : isBlank c = false) (t s : Text) :
    trimEnd (t ++ c :: s) = t ++ c :: trimEnd s := by
  induction t with
  | nil => simp [trimEnd_cons, hc]
  | cons d t ih => simp [trimEnd_cons, ih]

theorem exists_trimEnd_append (t : Text) :
    ∃ blanks, blanks.allBlank = true ∧ t = trimEnd t ++ blanks := by
  induction t with
  | nil => exact ⟨[], rfl, rfl⟩
  | cons c t ih =>
    obtain ⟨blanks, hb, ht⟩ := ih
    rw [trimEnd_cons]
    split_ifs with h
    · refine ⟨c :: t, ?_, rfl⟩
      rw [h.1, List.nil_append] at ht
      rw [ht]
      simpa [allBlank, h.2] using hb
    · exact ⟨blanks, hb, congrArg (c :: ·) ht⟩

theorem trimStart_trimEnd (t : Text) : trimStart (trimEnd t) = trimEnd (trimStart t) := by
  induction t with
  | nil => rfl
  | cons c t ih =>
    by_cases hc : isBlank c = true
    · have hstart : trimStart (c :: t) = trimStart t := List.dropWhile_cons_of_pos hc
      rw [hstart, ← ih, trimEnd_cons]
      split_ifs with h
      · rw [h.1]
      · exact List.dropWhile_cons_of_pos hc
    · have hstart : trimStart (c :: t) = c :: t := List.dropWhile_cons_of_neg hc
      rw [hstart, trimEnd_cons, if_neg (fun h => hc h.2)]
      exact List.dropWhile_cons_of_neg hc

end Text

namespace Step

theorem cut_cons {c : Char} {t : Text} (h : separator.after? (c :: t) = none) :
    cut (c :: t) = Text.push c (cut t) := by
  rw [cut]
  split
  · next rest hrest =>
    rw [h] at hrest
    cases hrest
  · rfl

theorem cut_separator_append (t : Text) : cut (separator ++ t) = [] :: cut t := by
  rw [cut]
  split
  · next rest hrest =>
    rw [Text.after?_append] at hrest
    cases hrest
    rfl
  · next hnone =>
    rw [Text.after?_append] at hnone
    cases hnone

theorem not_has_cons {c : Char} {t : Text} (h : separator.has (c :: t) = false) :
    separator.after? (c :: t) = none ∧ separator.has t = false := by
  rw [Text.has, Bool.or_eq_false_iff] at h
  exact ⟨Option.not_isSome_iff_eq_none.1 (by rw [h.1]; exact Bool.false_ne_true), h.2⟩

theorem cut_eq_singleton {t : Text} (h : separator.has t = false) : cut t = [t] := by
  induction t with
  | nil => simp [cut, separator, Text.after?]
  | cons c t ih =>
    obtain ⟨hc, ht⟩ := not_has_cons h
    rw [cut_cons hc, ih ht]
    rfl

/-- No separator starts in a text without separators and ends in one that follows it, since a
hyphen stands in the separator at its start only. -/
theorem after?_append_separator {c : Char} {t : Text} (h : separator.after? (c :: t) = none)
    (rest : Text) : separator.after? (c :: (t ++ (separator ++ rest))) = none := by
  -- Four more characters decide, if there are as many before the separator.
  rcases t with _ | ⟨c₁, _ | ⟨c₂, _ | ⟨c₃, _ | ⟨c₄, t⟩⟩⟩⟩
  case cons.cons.cons.cons => simpa [separator, Text.after?] using h
  all_goals simp [separator, Text.after?]

theorem cut_ne_nil (t : Text) : cut t ≠ [] := by
  rw [cut]
  split
  · exact List.cons_ne_nil _ _
  · cases t with
    | nil => exact List.cons_ne_nil _ _
    | cons c t =>
      dsimp only
      cases cut t <;> exact List.cons_ne_nil _ _

/-- Every separator of a script cuts it, whatever stands around it. -/
theorem cut_append (a b : Text) : cut (a ++ (separator ++ b)) = cut a ++ cut b := by
  fun_induction cut a with
  | case1 a rest h ih =>
    rw [Text.after?_eq_some_iff.1 h, List.append_assoc, cut_separator_append, ih]
    rfl
  | case2 => exact cut_separator_append b
  | case3 c rest h ih =>
    rw [List.cons_append, cut_cons (after?_append_separator h b), ih,
      Text.push_append (cut_ne_nil rest)]

theorem cut_append_separator {t : Text} (h : separator.has t = false) (rest : Text) :
    cut (t ++ (separator ++ rest)) = t :: cut rest := by
  rw [cut_append, cut_eq_singleton h]
  rfl

theorem map_trimEnd_push {c : Char} {l l' : List Text}
    (h : l.map Text.trimEnd = l'.map Text.trimEnd) :
    (Text.push c l).map Text.trimEnd = (Text.push c l').map Text.trimEnd := by
  cases l with
  | nil =>
    cases l' with
    | nil => rfl
    | cons piece l' => cases h
  | cons piece l =>
    cases l' with
    | nil => cases h
    | cons piece' l' =>
      obtain ⟨hp, hl⟩ := List.cons.inj h
      simp only [Text.push, List.map_cons, Text.trimEnd_cons, hp, hl]

private theorem notMem_separator_of_isBlank {c : Char} (h : Text.isBlank c = true) :
    c ∉ separator := by
  intro hm
  have hall : separator.any Text.isBlank = false := by decide
  rw [List.any_eq_true.2 ⟨c, hm, h⟩] at hall
  cases hall

theorem cut_of_allBlank {blanks : Text} (h : blanks.allBlank = true) : cut blanks = [blanks] := by
  apply cut_eq_singleton
  induction blanks with
  | nil => rfl
  | cons c blanks ih =>
    obtain ⟨hc, hb⟩ := Text.allBlank_cons.1 h
    have hafter : separator.after? (c :: blanks) = none :=
      Text.after?_append_of_notMem (t := []) rfl (notMem_separator_of_isBlank hc) blanks
    rw [Text.has, hafter, ih hb]
    rfl

/-- Blanks after a script are blanks after its last piece. -/
theorem map_trimEnd_cut_append {blanks : Text} (h : blanks.allBlank = true) (t : Text) :
    (cut (t ++ blanks)).map Text.trimEnd = (cut t).map Text.trimEnd := by
  fun_induction cut t with
  | case1 t rest hs ih =>
    rw [Text.after?_eq_some_iff.1 hs, List.append_assoc, cut_separator_append, List.map_cons, ih]
    rfl
  | case2 =>
    rw [List.nil_append, cut_of_allBlank h]
    exact congrArg (fun t => [t]) (Text.trimEnd_eq_nil_iff.2 h)
  | case3 c rest hs ih =>
    have hafter : separator.after? (c :: (rest ++ blanks)) = none := by
      cases blanks with
      | nil => rwa [List.append_nil]
      | cons d blanks =>
        have hd := notMem_separator_of_isBlank (Text.allBlank_cons.1 h).1
        exact Text.after?_append_of_notMem hs hd blanks
    rw [List.cons_append, cut_cons hafter]
    exact map_trimEnd_push ih

/-- Blanks before a script are blanks before its first piece. -/
theorem map_trimStart_cut_append {blanks : Text} (h : blanks.allBlank = true) (t : Text) :
    (cut (blanks ++ t)).map Text.trimStart = (cut t).map Text.trimStart := by
  induction blanks with
  | nil => rfl
  | cons c blanks ih =>
    obtain ⟨hc, hb⟩ := Text.allBlank_cons.1 h
    have hafter : separator.after? (c :: (blanks ++ t)) = none :=
      Text.after?_append_of_notMem (t := []) rfl (notMem_separator_of_isBlank hc) (blanks ++ t)
    rw [List.cons_append, cut_cons hafter, ← ih hb]
    obtain ⟨piece, pieces, hp⟩ := List.exists_cons_of_ne_nil (cut_ne_nil (blanks ++ t))
    rw [hp, Text.push, List.map_cons, List.map_cons]
    exact congrArg (· :: _) (List.dropWhile_cons_of_pos hc)

theorem exists_append_separator {t : Text} (h : separator.has t = true) :
    ∃ a b, t = a ++ (separator ++ b) ∧ separator.has a = false := by
  induction t with
  | nil => cases h
  | cons c t ih =>
    cases hafter : separator.after? (c :: t) with
    | some rest =>
      have ht : c :: t = separator ++ rest := Text.after?_eq_some_iff.1 hafter
      exact ⟨[], rest, ht, rfl⟩
    | none =>
      have ht : separator.has t = true := by
        rwa [Text.has, hafter, Option.isSome_none, Bool.false_or] at h
      obtain ⟨a, b, rfl, ha⟩ := ih ht
      refine ⟨c :: a, b, rfl, ?_⟩
      -- A separator at the start of the front would be one at the start of the text.
      have hfront : separator.after? (c :: a) = none := by
        rw [Option.eq_none_iff_forall_ne_some]
        intro rest hrest
        rw [← List.cons_append, Text.after?_eq_some_iff.1 hrest, List.append_assoc,
          Text.after?_append] at hafter
        cases hafter
      rw [Text.has, hfront, ha]
      rfl

/-- A script is a single step, or a first step, a separator and another script. -/
@[elab_as_elim]
theorem separator_induction {P : Text → Prop} (single : ∀ t, separator.has t = false → P t)
    (more : ∀ a b, separator.has a = false → P b → P (a ++ (separator ++ b))) (t : Text) : P t := by
  cases h : separator.has t with
  | false => exact single t h
  | true =>
    obtain ⟨a, b, ht, ha⟩ := exists_append_separator h
    have hlength : b.length < t.length := by
      rw [ht]
      simp [separator]
      omega
    rw [ht]
    exact more a b ha (separator_induction single more b)
termination_by t.length

def texts (script : Text) : List Text :=
  (cut script).map Text.trim

theorem texts_append_of_allBlank {blanks : Text} (h : blanks.allBlank = true) (t : Text) :
    texts (t ++ blanks) = texts t := by
  have htexts : ∀ u, texts u = ((cut u).map Text.trimEnd).map Text.trimStart := by
    intro u
    rw [texts, List.map_map]
    exact List.map_congr_left fun piece _ => (Text.trimStart_trimEnd piece).symm
  rw [htexts, htexts, map_trimEnd_cut_append h]

theorem texts_of_allBlank_append {blanks : Text} (h : blanks.allBlank = true) (t : Text) :
    texts (blanks ++ t) = texts t := by
  have htexts : ∀ u, texts u = ((cut u).map Text.trimStart).map Text.trimEnd := by
    intro u
    rw [texts, List.map_map]
    rfl
  rw [htexts, htexts, map_trimStart_cut_append h]

theorem texts_trimEnd (t : Text) : texts t.trimEnd = texts t := by
  obtain ⟨blanks, hb, ht⟩ := Text.exists_trimEnd_append t
  calc texts t.trimEnd = texts (t.trimEnd ++ blanks) := (texts_append_of_allBlank hb _).symm
    _ = texts t := by rw [← ht]

theorem texts_trimStart (t : Text) : texts t.trimStart = texts t := by
  have hsplit : t.takeWhile Text.isBlank ++ t.trimStart = t := List.takeWhile_append_dropWhile
  have hb : Text.allBlank (t.takeWhile Text.isBlank) = true := List.all_takeWhile
  calc texts t.trimStart = texts (t.takeWhile Text.isBlank ++ t.trimStart) :=
        (texts_of_allBlank_append hb _).symm
    _ = texts t := by rw [hsplit]

theorem texts_trim (t : Text) : texts t.trim = texts t :=
  (texts_trimEnd t.trimStart).trans (texts_trimStart t)

theorem texts_append (a b : Text) : texts (a ++ (separator ++ b)) = texts a ++ texts b := by
  rw [texts, cut_append, List.map_append]
  rfl

/-- The steps of a script are the texts of its steps, numbered from one. -/
theorem split_eq (t : Text) : split t = ((texts t).zipIdx 1).map fun (text, i) => ⟨i, text⟩ := by
  rw [split, texts, List.zipIdx_map, List.map_map]
  rfl

theorem split_eq_singleton {t : Text} (h : separator.has t = false) (htrim : t.trim = t) :
    split t = [⟨1, t⟩] := by
  rw [split, cut_eq_singleton h]
  exact congrArg (fun text => [Step.mk 1 text]) htrim

end Step

end PromptChain
