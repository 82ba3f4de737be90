import Mathlib.Data.List.Forall2
import PromptChain.Proofs.Extraction

/-! The grammar of actions. The headers in the text of a step, each at its first place, decide whether
the step is a prompt, a loop or an action nobody knows. -/
namespace PromptChain

/-- The first place of a text from where on `P` holds: what stands before it, and what from it on. -/
structure FirstPlace (P : Text → Prop) (t front back : Text) : Prop where
  split : t = front ++ back
  holds : P back
  first : ∀ front' back', t = front' ++ back' → P back' → front.length ≤ front'.length

namespace FirstPlace

variable {P : Text → Prop} {t front back : Text} {c : Char}

theorem of_holds (h : P t) : FirstPlace P t [] t :=
  ⟨rfl, h, fun _ _ _ _ => Nat.zero_le _⟩

theorem unique {front' back' : Text} (h : FirstPlace P t front back)
    (h' : FirstPlace P t front' back') : front = front' ∧ back = back' := by
  have hlength : front.length = front'.length :=
    Nat.le_antisymm (h.first _ _ h'.split h'.holds) (h'.first _ _ h.split h.holds)
  exact List.append_inj (h.split.symm.trans h'.split) hlength

theorem suffix (h : FirstPlace P t front back) : back <:+ t :=
  ⟨front, h.split.symm⟩

/-- A character from which on `P` does not hold stands before the first place. -/
theorem cons_iff (hc : ¬P (c :: t)) :
    FirstPlace P (c :: t) front back ↔ ∃ more, front = c :: more ∧ FirstPlace P t more back := by
  constructor
  · intro h
    cases front with
    | nil =>
      have hback : c :: t = back := h.split
      exact absurd (hback ▸ h.holds) hc
    | cons d more =>
      obtain ⟨rfl, ht⟩ := List.cons.inj h.split
      refine ⟨more, rfl, ht, h.holds, ?_⟩
      intro front' back' hsplit hback
      have hle := h.first (c :: front') back' (congrArg (c :: ·) hsplit) hback
      exact Nat.le_of_succ_le_succ hle
  · rintro ⟨more, rfl, h⟩
    refine ⟨congrArg (c :: ·) h.split, h.holds, ?_⟩
    intro front' back' hsplit hback
    cases front' with
    | nil =>
      have hhere : c :: t = back' := hsplit
      exact absurd (hhere ▸ hback) hc
    | cons d front' =>
      have hle := h.first front' back' (List.cons.inj hsplit).2 hback
      exact Nat.succ_le_succ hle

theorem exists_cons_iff (hc : ¬P (c :: t)) :
    (∃ front, FirstPlace P (c :: t) front back) ↔ ∃ front, FirstPlace P t front back := by
  simp only [cons_iff hc]
  constructor
  · rintro ⟨_, front, -, h⟩
    exact ⟨front, h⟩
  · rintro ⟨front, h⟩
    exact ⟨c :: front, front, rfl, h⟩

/-- What holds from some place on has a first place. -/
theorem exists_of_suffix (hsuffix : back <:+ t) (h : P back) :
    ∃ front back', FirstPlace P t front back' := by
  induction t with
  | nil =>
    rw [List.suffix_nil.1 hsuffix] at h
    exact ⟨[], [], .of_holds h⟩
  | cons c t ih =>
    by_cases hc : P (c :: t)
    · exact ⟨[], c :: t, .of_holds hc⟩
    · rcases List.suffix_cons_iff.1 hsuffix with rfl | hsuffix
      · exact absurd h hc
      · obtain ⟨front, back', hplace⟩ := ih hsuffix
        exact ⟨c :: front, back', (cons_iff hc).2 ⟨front, rfl, hplace⟩⟩

end FirstPlace

/-- The text starts with a header before an accepted character. -/
def Headed (header : Text) (accepts : Char → Bool) (t : Text) : Prop :=
  ∃ c more, t = header ++ c :: more ∧ accepts c = true

/-- The header stands before an accepted character somewhere in the text. -/
def Stands (header : Text) (accepts : Char → Bool) (t : Text) : Prop :=
  ∃ back, back <:+ t ∧ Headed header accepts back

section Headers

variable {header : Text} {accepts : Char → Bool} {t rest : Text}

theorem not_headed_nil : ¬Headed header accepts [] := by
  rintro ⟨c, more, h, -⟩
  simp at h

theorem headed?_eq_some_iff : headed? header accepts t = some rest ↔
    ∃ front, FirstPlace (Headed header accepts) t front (header ++ rest) := by
  fun_induction headed? header accepts t with
  | case1 =>
    constructor
    · intro h
      cases h
    · rintro ⟨front, h⟩
      have hnil : header ++ rest = [] := (List.append_eq_nil_iff.1 h.split.symm).2
      exact absurd (hnil ▸ h.holds) not_headed_nil
  | case2 c t d more hafter hd =>
    have htext : c :: t = header ++ d :: more := Text.after?_eq_some_iff.1 hafter
    have hhere : FirstPlace (Headed header accepts) (c :: t) [] (c :: t) :=
      .of_holds ⟨d, more, htext, hd⟩
    constructor
    · intro h
      obtain rfl := Option.some.inj h
      exact ⟨[], htext ▸ hhere⟩
    · rintro ⟨front, h⟩
      have hback := (hhere.unique h).2
      rw [htext] at hback
      rw [List.append_cancel_left hback]
  | case3 c t d more hafter hd ih =>
    have htext : c :: t = header ++ d :: more := Text.after?_eq_some_iff.1 hafter
    have hc : ¬Headed header accepts (c :: t) := by
      rintro ⟨e, other, he, haccepts⟩
      rw [htext] at he
      rw [(List.cons.inj (List.append_cancel_left he)).1] at hd
      exact hd haccepts
    rw [ih, FirstPlace.exists_cons_iff hc]
  | case4 c t hafter ih =>
    have hc : ¬Headed header accepts (c :: t) := by
      rintro ⟨d, more, htext, -⟩
      exact hafter d more (Text.after?_eq_some_iff.2 htext)
    rw [ih, FirstPlace.exists_cons_iff hc]

theorem isSome_headed?_iff : (headed? header accepts t).isSome = true ↔ Stands header accepts t := by
  constructor
  · intro h
    obtain ⟨rest, hrest⟩ := Option.isSome_iff_exists.1 h
    obtain ⟨front, hplace⟩ := headed?_eq_some_iff.1 hrest
    exact ⟨_, hplace.suffix, hplace.holds⟩
  · rintro ⟨back, hsuffix, hback⟩
    obtain ⟨front, there, hplace⟩ := FirstPlace.exists_of_suffix hsuffix hback
    obtain ⟨c, more, rfl, -⟩ := hplace.holds
    exact Option.isSome_of_eq_some (headed?_eq_some_iff.2 ⟨front, hplace⟩)

variable {α : Type} {read : Text → α}

theorem map_headed?_eq_some_iff {x : α} : (headed? header accepts t).map read = some x ↔
    ∃ front rest, FirstPlace (Headed header accepts) t front (header ++ rest) ∧ x = read rest := by
  rw [Option.map_eq_some_iff]
  constructor
  · rintro ⟨rest, hrest, hx⟩
    obtain ⟨front, hplace⟩ := headed?_eq_some_iff.1 hrest
    exact ⟨front, rest, hplace, hx.symm⟩
  · rintro ⟨front, rest, hplace, hx⟩
    exact ⟨rest, headed?_eq_some_iff.2 ⟨front, hplace⟩, hx.symm⟩

theorem isSome_map_headed?_iff :
    ((headed? header accepts t).map read).isSome = true ↔ Stands header accepts t := by
  rw [Option.isSome_map]
  exact isSome_headed?_iff

end Headers

def itemHeader : Text :=
  itemMark ++ [' ']

/-- The text has an item header, and `word` is the run of word characters after its first action
header. -/
def AsksFor (t word : Text) : Prop :=
  Stands itemHeader isLineCharacter t ∧
    ∃ front rest, FirstPlace (Headed actionHeader Text.isWordCharacter) t front (actionHeader ++ rest) ∧
      word = rest.takeWhile Text.isWordCharacter

def AsksForUnknown (t : Text) : Prop :=
  ∃ word, AsksFor t word ∧ word ≠ loopWord

def manyFlag : Bool → Text
  | true => "ManyItems: TRUE".toList
  | false => "ManyItems: FALSE".toList

def Flagged (t : Text) : Prop :=
  ∃ many, manyFlag many <+: t

/-- The first of the flags in the text says that a list has many items. -/
def SaysMany (t : Text) : Prop :=
  ∃ rest front, FirstPlace Flagged t front (manyFlag true ++ rest)

/-- How a step is read. With both headers it is a loop over the line after its first item header,
without one of them it is a prompt of its whole text. -/
inductive Step.ReadAs (s : Step) : Action → Prop
  | loop {front rest : Text} {aggregate : Bool} (word : AsksFor s.text loopWord)
      (place : FirstPlace (Headed itemHeader isLineCharacter) s.text front (itemHeader ++ rest))
      (many : aggregate = false ↔ SaysMany s.text) :
      ReadAs s (.text ⟨.loop (loopSource? s.text) aggregate, s.text.declared, Rules.ofText s.text⟩
        (Text.trim (rest.takeWhile isLineCharacter)))
  | prompt (none : ¬(Stands actionHeader Text.isWordCharacter s.text ∧
        Stands itemHeader isLineCharacter s.text)) :
      ReadAs s (.text ⟨.default, s.text.declared, Rules.ofText s.text⟩ s.text.trim)

theorem manyItems?_eq_some_true_iff {t : Text} : manyItems? t = some true ↔ SaysMany t := by
  fun_induction manyItems? t with
  | case1 =>
    constructor
    · intro h
      cases h
    · rintro ⟨rest, front, h⟩
      have hnil : manyFlag true ++ rest = [] := (List.append_eq_nil_iff.1 h.split.symm).2
      cases hnil
  | case2 c t hmany =>
    obtain ⟨rest, hrest⟩ := Option.isSome_iff_exists.1 hmany
    have htext : c :: t = manyFlag true ++ rest := Text.after?_eq_some_iff.1 hrest
    have hhere : Flagged (c :: t) := ⟨true, rest, htext.symm⟩
    constructor
    · intro _
      exact ⟨rest, [], htext ▸ .of_holds hhere⟩
    · intro _
      rfl
  | case3 c t hmany hfew =>
    obtain ⟨rest, hrest⟩ := Option.isSome_iff_exists.1 hfew
    have htext : c :: t = manyFlag false ++ rest := Text.after?_eq_some_iff.1 hrest
    have hhere : Flagged (c :: t) := ⟨false, rest, htext.symm⟩
    constructor
    · intro h
      cases h
    · rintro ⟨more, front, h⟩
      have hback := (h.unique (.of_holds hhere)).2
      exact absurd (Option.isSome_of_eq_some (Text.after?_eq_some_iff.2 hback.symm)) hmany
  | case4 c t hmany hfew ih =>
    have hc : ¬Flagged (c :: t) := by
      rintro ⟨many, rest, htext⟩
      have hsome := Option.isSome_of_eq_some (Text.after?_eq_some_iff.2 htext.symm)
      cases many with
      | true => exact hmany hsome
      | false => exact hfew hsome
    rw [ih]
    exact exists_congr fun rest => (FirstPlace.exists_cons_iff hc).symm

theorem actionWord?_eq_some_iff {t word : Text} : actionWord? t = some word ↔
    ∃ front rest, FirstPlace (Headed actionHeader Text.isWordCharacter) t front (actionHeader ++ rest) ∧
      word = rest.takeWhile Text.isWordCharacter :=
  map_headed?_eq_some_iff

theorem itemTemplate?_eq_some_iff {t template : Text} : itemTemplate? t = some template ↔
    ∃ front rest, FirstPlace (Headed itemHeader isLineCharacter) t front (itemHeader ++ rest) ∧
      template = Text.trim (rest.takeWhile isLineCharacter) :=
  map_headed?_eq_some_iff

theorem isSome_actionWord?_iff {t : Text} :
    (actionWord? t).isSome = true ↔ Stands actionHeader Text.isWordCharacter t :=
  isSome_map_headed?_iff

theorem isSome_itemTemplate?_iff {t : Text} :
    (itemTemplate? t).isSome = true ↔ Stands itemHeader isLineCharacter t :=
  isSome_map_headed?_iff

theorem asksFor_iff {t word : Text} :
    AsksFor t word ↔ actionWord? t = some word ∧ (itemTemplate? t).isSome = true := by
  rw [AsksFor, actionWord?_eq_some_iff, isSome_itemTemplate?_iff]
  exact and_comm

namespace Step

variable {s : Step}

theorem action_eq_error_iff {e : UnknownAction} : s.action = .error e ↔
    ∃ word, AsksFor s.text word ∧ word ≠ loopWord ∧ e = ⟨s.index, word⟩ := by
  simp only [asksFor_iff]
  unfold action
  split
  · next word template hword htemplate =>
    rw [hword, htemplate]
    split_ifs with hloop
    · simp [hloop]
    · simp only [Except.error.injEq, Option.some.injEq, Option.isSome_some, and_true]
      constructor
      · rintro rfl
        exact ⟨word, rfl, hloop, rfl⟩
      · rintro ⟨_, rfl, -, rfl⟩
        rfl
  · next hnone =>
    constructor
    · intro h
      cases h
    · rintro ⟨word, ⟨hword, hitem⟩, -⟩
      obtain ⟨template, htemplate⟩ := Option.isSome_iff_exists.1 hitem
      exact absurd htemplate (hnone word template hword)

theorem readAs_of_action {a : Action} (h : s.action = .ok a) : s.ReadAs a := by
  unfold action at h
  split at h
  · next word template hword htemplate =>
    split_ifs at h with hloop
    cases h
    obtain ⟨front, rest, hplace, rfl⟩ := itemTemplate?_eq_some_iff.1 htemplate
    refine .loop (asksFor_iff.2 ⟨hloop ▸ hword, by rw [htemplate]; rfl⟩) hplace ?_
    rw [← manyItems?_eq_some_true_iff]
    cases hmany : manyItems? s.text with
    | none => simp
    | some many => simp
  · next hnone =>
    cases h
    refine .prompt ?_
    rintro ⟨haction, hitem⟩
    obtain ⟨word, hword⟩ := Option.isSome_iff_exists.1 (isSome_actionWord?_iff.2 haction)
    obtain ⟨template, htemplate⟩ := Option.isSome_iff_exists.1 (isSome_itemTemplate?_iff.2 hitem)
    exact hnone word template hword htemplate

theorem ReadAs.action_eq {a : Action} (h : s.ReadAs a) : s.action = .ok a := by
  cases h with
  | @loop front rest aggregate word place many =>
    have hword := (asksFor_iff.1 word).1
    have htemplate := itemTemplate?_eq_some_iff.2 ⟨front, rest, place, rfl⟩
    have haggregate : aggregate = !(manyItems? s.text).getD false := by
      rw [← manyItems?_eq_some_true_iff] at many
      cases hmany : manyItems? s.text with
      | none => simpa [hmany] using many
      | some many => cases many <;> simpa [hmany] using many
    unfold action
    rw [hword, htemplate, haggregate]
    exact if_pos rfl
  | prompt none =>
    unfold action
    split
    · next word template hword htemplate =>
      have haction := isSome_actionWord?_iff.1 (Option.isSome_of_eq_some hword)
      have hitem := isSome_itemTemplate?_iff.1 (Option.isSome_of_eq_some htemplate)
      exact absurd ⟨haction, hitem⟩ none
    · rfl

end Step

theorem Step.exists_action_eq_error_iff {s : Step} :
    (∃ e, s.action = .error e) ↔ AsksForUnknown s.text := by
  constructor
  · rintro ⟨e, h⟩
    obtain ⟨word, hasks, hne, -⟩ := action_eq_error_iff.1 h
    exact ⟨word, hasks, hne⟩
  · rintro ⟨word, hasks, hne⟩
    exact ⟨⟨s.index, word⟩, action_eq_error_iff.2 ⟨word, hasks, hne, rfl⟩⟩

/-- Reading actions decides the grammar. It fails if a step asks for an action that nobody knows, with
the index of the first such step. Else there is one action for each step, in order: a loop for a step
with both headers, a prompt for any other. -/
theorem Action.ofSteps_decides (steps : List Step) :
    ((∃ e, ofSteps steps = .error e) ↔ ∃ s ∈ steps, AsksForUnknown s.text) ∧
      (∀ e, ofSteps steps = .error e →
        e.diagnostic.code = "ACTION_KIND_UNKNOWN".toList ∧
          ∃ before s after, steps = before ++ s :: after ∧
            (∀ earlier ∈ before, ¬AsksForUnknown earlier.text) ∧ AsksForUnknown s.text ∧
              e.diagnostic.step = some s.index) ∧
      ∀ actions, ofSteps steps = .ok actions ↔ List.Forall₂ Step.ReadAs steps actions := by
  have hok : ∀ actions, ofSteps steps = .ok actions ↔ List.Forall₂ Step.ReadAs steps actions := by
    intro actions
    rw [ofSteps, Outcome.mapM_eq_ok_iff]
    constructor
    · exact List.Forall₂.imp fun s a => Step.readAs_of_action
    · exact List.Forall₂.imp fun s a => Step.ReadAs.action_eq
  have herror : ∀ e, ofSteps steps = .error e → ∃ before s after, steps = before ++ s :: after ∧
      (∀ earlier ∈ before, ¬AsksForUnknown earlier.text) ∧ s.action = .error e := by
    intro e h
    obtain ⟨before, s, after, hsteps, hbefore, hs⟩ := Outcome.mapM_eq_error h
    refine ⟨before, s, after, hsteps, fun earlier he hasks => ?_, hs⟩
    obtain ⟨u, hu⟩ := Step.exists_action_eq_error_iff.2 hasks
    exact hbefore earlier he u hu
  refine ⟨⟨?_, ?_⟩, ?_, hok⟩
  · rintro ⟨e, h⟩
    obtain ⟨before, s, after, rfl, -, hs⟩ := herror e h
    exact ⟨s, by simp, Step.exists_action_eq_error_iff.1 ⟨e, hs⟩⟩
  · rintro ⟨s, hs, hasks⟩
    obtain ⟨u, hu⟩ := Step.exists_action_eq_error_iff.2 hasks
    exact Outcome.exists_mapM_eq_error hs hu
  · intro e h
    obtain ⟨before, s, after, hsteps, hbefore, hs⟩ := herror e h
    obtain ⟨word, hasks, hne, rfl⟩ := Step.action_eq_error_iff.1 hs
    exact ⟨rfl, before, s, after, hsteps, hbefore, ⟨word, hasks, hne⟩, rfl⟩

def unknownWords : List Step :=
  [⟨3, "About {{a}}".toList⟩, ⟨7, "ACTION: Map\nForEveryItemDoThis: {{a}}".toList⟩,
    ⟨8, "ACTION: Fold\nForEveryItemDoThis: {{a}}".toList⟩]

set_option maxRecDepth 4000 in
theorem Action.ofSteps_decides_unknownWords :
    ofSteps unknownWords = .error ⟨7, "Map".toList⟩ ∧
      ∃ before s after, unknownWords = before ++ s :: after ∧
        (∀ earlier ∈ before, ¬AsksForUnknown earlier.text) ∧ AsksForUnknown s.text ∧
          (UnknownAction.mk 7 "Map".toList).diagnostic.step = some s.index := by
  have hprompt : Step.action ⟨3, "About {{a}}".toList⟩ =
      .ok (.text ⟨.default, ["a".toList], {}⟩ "About {{a}}".toList) := by cbv
  have hword : actionWord? "ACTION: Map\nForEveryItemDoThis: {{a}}".toList = some "Map".toList := by
    cbv
  have hitem : itemTemplate? "ACTION: Map\nForEveryItemDoThis: {{a}}".toList =
      some "{{a}}".toList := by cbv
  have hunknown : Step.action ⟨7, "ACTION: Map\nForEveryItemDoThis: {{a}}".toList⟩ =
      .error ⟨7, "Map".toList⟩ := by
    rw [Step.action, hword, hitem]
    exact if_neg (by decide)
  have hfails : ofSteps unknownWords = .error ⟨7, "Map".toList⟩ := by
    rw [ofSteps, unknownWords, List.mapM_cons, hprompt, List.mapM_cons, hunknown]
    rfl
  exact ⟨hfails, ((ofSteps_decides _).2.1 _ hfails).2⟩

end PromptChain
