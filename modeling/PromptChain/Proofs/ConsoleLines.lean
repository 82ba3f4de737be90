import PromptChain.Inputs
import PromptChain.Proofs.EncodedTexts

/-! Lines of a console: what a question takes from the input, and how a typed line is read. -/
namespace PromptChain

namespace Utf8

/-- The byte of a line feed stands in no other character. -/
theorem feed_notMem_encodeChar {c : Char} (h : c ≠ '\n') : 10 ∉ String.utf8EncodeChar c :=
  notMem_encodeChar (a := '\n') (by decide) h

theorem feed_notMem_encode {t : Text} (h : '\n' ∉ t) : 10 ∉ encode t := by
  intro hmem
  obtain ⟨c, hc, hbyte⟩ := List.mem_flatMap.1 hmem
  have hne : c ≠ '\n' := by
    rintro rfl
    exact h hc
  exact feed_notMem_encodeChar hne hbyte

end Utf8

namespace Console

theorem cutLine_append_feed {body : Bytes} (h : 10 ∉ body) (more : Bytes) :
    cutLine (body ++ 10 :: more) = (body ++ [10], more) := by
  induction body with
  | nil => rfl
  | cons b body ih =>
    rw [List.mem_cons, not_or] at h
    rw [List.cons_append, cutLine, if_neg (Ne.symm h.1), ih h.2]
    rfl

theorem cutLine_of_notMem {input : Bytes} (h : 10 ∉ input) : cutLine input = (input, []) := by
  induction input with
  | nil => rfl
  | cons b input ih =>
    rw [List.mem_cons, not_or] at h
    rw [cutLine, if_neg (Ne.symm h.1), ih h.2]

theorem ask_eq (question : Text) (console : Console) :
    ask question console =
      ((cutLine console.input).1, ⟨(cutLine console.input).2, console.shown ++ question⟩) :=
  rfl

/-- A question takes one typed line, and leaves what follows it. -/
theorem ask_typed {t : Text} (h : '\n' ∉ t) (question : Text) (rest : Bytes) (shown : Text) :
    ask question ⟨Utf8.encode (t ++ ['\n']) ++ rest, shown⟩ =
      (Utf8.encode (t ++ ['\n']), ⟨rest, shown ++ question⟩) := by
  have hline : Utf8.encode (t ++ ['\n']) = Utf8.encode t ++ [10] := Utf8.encode_append t ['\n']
  have hcut : cutLine (Utf8.encode (t ++ ['\n']) ++ rest) = (Utf8.encode (t ++ ['\n']), rest) := by
    rw [hline, List.append_assoc, List.singleton_append]
    exact cutLine_append_feed (Utf8.feed_notMem_encode h) rest
  rw [ask_eq, hcut]

/-- A number of lines is taken from the start of the input. Each ends with a line feed, save that the
last line of the input may have none. -/
inductive TakesLines : Nat → Bytes → Bytes → Prop where
  | none (input : Bytes) : TakesLines 0 input input
  | closed {n : Nat} {body more rest : Bytes} (hbody : 10 ∉ body) (h : TakesLines n more rest) :
      TakesLines (n + 1) (body ++ 10 :: more) rest
  | last {body : Bytes} (hne : body ≠ []) (hbody : 10 ∉ body) : TakesLines 1 body []

theorem TakesLines.of_nil {n : Nat} {input rest : Bytes} (h : TakesLines n input rest)
    (hinput : input = []) : n = 0 ∧ rest = [] := by
  cases h with
  | none => exact ⟨rfl, hinput⟩
  | closed hbody h => exact absurd hinput (List.append_ne_nil_of_right_ne_nil _ (List.cons_ne_nil _ _))
  | last hne hbody => exact absurd hinput hne

/-- A line that is not empty is a line more, before the lines that are taken from the rest. -/
theorem takesLines_succ {n : Nat} {input rest : Bytes} (hline : (cutLine input).1 ≠ [])
    (h : TakesLines n (cutLine input).2 rest) : TakesLines (n + 1) input rest := by
  by_cases hfeed : 10 ∈ input
  · obtain ⟨body, more, rfl, hbody⟩ := List.eq_append_cons_of_mem hfeed
    rw [cutLine_append_feed hbody] at h
    exact .closed hbody h
  · rw [cutLine_of_notMem hfeed] at hline h
    obtain ⟨rfl, rfl⟩ := h.of_nil rfl
    exact .last hline hfeed

end Console

namespace Inputs

/-- A text that can be typed as a line: it has no line feed, and no carriage return at its end. -/
def Typable (t : Text) : Prop :=
  '\n' ∉ t ∧ t.getLast? ≠ some '\r'

theorem Typable.withoutLineEnd_eq {t : Text} (h : Typable t) : withoutLineEnd (t ++ ['\n']) = t := by
  obtain ⟨hfeed, hreturn⟩ := h
  have hend : t.reverse.dropWhile isLineEnd = t.reverse := by
    cases hrev : t.reverse with
    | nil => rfl
    | cons c rest =>
      have hc : c ∈ t := List.mem_reverse.1 (hrev ▸ List.mem_cons_self)
      have hnotFeed : c ≠ '\n' := fun heq => hfeed (heq ▸ hc)
      have hnotReturn : c ≠ '\r' := by
        rintro rfl
        apply hreturn
        rw [← List.head?_reverse, hrev, List.head?_cons]
      exact List.dropWhile_cons_of_neg (by simp [isLineEnd, hnotFeed, hnotReturn])
  have hlast : ('\n' :: t.reverse).dropWhile isLineEnd = t.reverse.dropWhile isLineEnd :=
    List.dropWhile_cons_of_pos rfl
  rw [withoutLineEnd, List.reverse_append, List.reverse_singleton, List.singleton_append, hlast,
    hend, List.reverse_reverse]

/-- A typed line gives the value of its text. -/
theorem Typable.answer_eq {t : Text} (h : Typable t) (name : Text) :
    answer name (Utf8.encode (t ++ ['\n'])) = .ok (Value.ofInput t) := by
  unfold answer
  rw [Utf8.decode?_encode]
  split
  · next hnone => cases hnone
  · next hnil => simp at hnil
  · next text htext =>
    cases htext
    rw [h.withoutLineEnd_eq]

theorem ne_nil_of_answer {name : Text} {line : Bytes} {value : Value}
    (h : answer name line = .ok value) : line ≠ [] := by
  rintro rfl
  have hended : answer name [] = .error (.ended name) := by
    rw [show ([] : Bytes) = Utf8.encode [] from rfl, answer, Utf8.decode?_encode]
  rw [hended] at h
  cases h

end Inputs

end PromptChain
