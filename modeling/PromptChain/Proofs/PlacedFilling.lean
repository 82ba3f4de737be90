import PromptChain.Proofs.Occurrences
import PromptChain.Proofs.Substitution

/-! What a pass over a text has to give: the first of its names that has no value, or the text with
its own placeholders, at their places, replaced by values and with all the rest kept. -/
namespace PromptChain

namespace Text

theorem eq_nil_of_byteLength {t : Text} (h : t.byteLength = 0) : t = [] := by
  cases t with
  | nil => rfl
  | cons c t =>
    have hpos := Char.utf8Size_pos c
    rw [byteLength] at h
    omega

/-- Of two texts that a text starts with, the one with fewer bytes starts the other. -/
theorem exists_between {front rest longer more : Text} (h : front ++ rest = longer ++ more)
    (hle : front.byteLength ≤ longer.byteLength) :
    ∃ between, longer = front ++ between ∧ rest = between ++ more := by
  rcases List.append_eq_append_iff.1 h with ⟨between, hlonger, hrest⟩ | ⟨extra, hfront, hmore⟩
  · exact ⟨between, hlonger, hrest⟩
  · have hextra : extra = [] := by
      apply eq_nil_of_byteLength
      rw [hfront, byteLength_append] at hle
      omega
    rw [hextra, List.append_nil] at hfront
    rw [hextra, List.nil_append] at hmore
    exact ⟨[], by rw [hfront, List.append_nil], hmore.symm⟩

end Text

/-- A name of a pass has no value, and it is the first of the names that is such. -/
structure FirstUnresolved (pass : Pass) (resolve : Text → Option Value) (names : List Text)
    (name : Text) : Prop where
  accepted : pass.accepts name = true
  unresolved : resolve name = none
  first : ∃ before after, names = before ++ name :: after ∧
    ∀ other ∈ before, pass.accepts other = true → (resolve other).isSome = true

/-- The rest of a text from an offset on, and the same with the given placeholders, at their places,
replaced by the prompt texts of their values. -/
inductive FilledFrom (resolve : Text → Option Value) :
    (offset : Nat) → List Occurrence → (source result : Text) → Prop where
  | kept (offset : Nat) (rest : Text) : FilledFrom resolve offset [] rest rest
  | filled {offset : Nat} {o : Occurrence} {os : List Occurrence} {value : Value}
      {before source result : Text} :
      o.start = offset + before.byteLength →
      o.stop = o.start + (Piece.placeholder o.name).source.byteLength →
      resolve o.name = some value →
      FilledFrom resolve o.stop os source result →
      FilledFrom resolve offset (o :: os) (before ++ ((Piece.placeholder o.name).source ++ source))
        (before ++ (value.promptText ++ result))

namespace FilledFrom

variable {resolve : Text → Option Value} {offset : Nat} {os : List Occurrence}
  {source result : Text}

/-- What stands before is kept. -/
theorem append {before : Text} (h : FilledFrom resolve (offset + before.byteLength) os source result) :
    FilledFrom resolve offset os (before ++ source) (before ++ result) := by
  generalize hstart : offset + before.byteLength = start at h
  cases h with
  | kept => exact kept offset _
  | @filled _ o os value more source result hs hstop hvalue hrest =>
    have hmore : o.start = offset + (before ++ more).byteLength := by
      rw [Text.byteLength_append]
      omega
    rw [← List.append_assoc before more, ← List.append_assoc before more]
    exact filled hmore hstop hvalue hrest

theorem isSome (h : FilledFrom resolve offset os source result) {o : Occurrence} (ho : o ∈ os) :
    (resolve o.name).isSome = true := by
  induction h with
  | kept => cases ho
  | filled _ _ hvalue _ ih =>
    rcases List.mem_cons.1 ho with rfl | ho
    · rw [hvalue]
      rfl
    · exact ih ho

/-- The places and the values leave no choice. -/
theorem unique {other : Text} (h : FilledFrom resolve offset os source result)
    (hother : FilledFrom resolve offset os source other) : result = other := by
  induction h generalizing other with
  | kept =>
    cases hother
    rfl
  | @filled offset o os value before source result hstart _ hvalue _ ih =>
    generalize hsource : before ++ ((Piece.placeholder o.name).source ++ source) = whole at hother
    cases hother with
    | @filled _ _ _ value' before' source' result' hstart' _ hvalue' hrest' =>
      have hle : before.byteLength ≤ before'.byteLength := by omega
      obtain ⟨between, hbefore, hbetween⟩ := Text.exists_between hsource hle
      have hnil : between = [] := by
        apply Text.eq_nil_of_byteLength
        rw [hbefore, Text.byteLength_append] at hstart'
        omega
      rw [hnil, List.append_nil] at hbefore
      rw [hnil, List.nil_append, List.append_cancel_left_eq] at hbetween
      rw [hvalue, Option.some.injEq] at hvalue'
      rw [← hbetween] at hrest'
      rw [hbefore, hvalue', ih hrest']

end FilledFrom

section

variable {pass : Pass} {resolve : Text → Option Value}

def Pass.own (pass : Pass) (os : List Occurrence) : List Occurrence :=
  os.filter fun o => pass.accepts o.name

theorem firstUnresolved_iff {names : List Text} {name : Text} :
    FirstUnresolved pass resolve names name ↔
      names.find? (pass.isUndefined resolve) = some name := by
  have hundefined : ∀ other, pass.isUndefined resolve other = true ↔
      pass.accepts other = true ∧ resolve other = none := by
    intro other
    simp [Pass.isUndefined]
  rw [List.find?_eq_some_iff_append, hundefined]
  constructor
  · rintro ⟨ha, hn, before, after, hnames, hbefore⟩
    refine ⟨⟨ha, hn⟩, before, after, hnames, ?_⟩
    intro other ho
    by_cases hacc : pass.accepts other = true
    · have hsome := hbefore other ho hacc
      simp [Pass.isUndefined, hsome]
    · simp [Pass.isUndefined, hacc]
  · rintro ⟨⟨ha, hn⟩, before, after, hnames, hbefore⟩
    refine ⟨ha, hn, before, after, hnames, ?_⟩
    intro other ho hacc
    simpa [Pass.isUndefined, hacc] using hbefore other ho

theorem FirstUnresolved.cons {names : List Text} {name other : Text}
    (h : FirstUnresolved pass resolve names name)
    (hother : pass.accepts other = true → (resolve other).isSome = true) :
    FirstUnresolved pass resolve (other :: names) name := by
  obtain ⟨ha, hn, before, after, hnames, hbefore⟩ := h
  refine ⟨ha, hn, other :: before, after, by rw [hnames]; rfl, ?_⟩
  intro name hm
  rcases List.mem_cons.1 hm with rfl | hm
  · exact hother
  · exact hbefore name hm

/-- What a pass over a text from an offset on has to give: the first of its names that has no value,
or the text with its names filled. -/
inductive Fulfils (pass : Pass) (resolve : Text → Option Value) (offset : Nat)
    (os : List Occurrence) (source : Text) : Except UndefinedVariable Text → Prop where
  | failure {name : Text} : FirstUnresolved pass resolve (os.map Occurrence.name) name →
      Fulfils pass resolve offset os source (.error ⟨name⟩)
  | success {result : Text} : FilledFrom resolve offset (pass.own os) source result →
      Fulfils pass resolve offset os source (.ok result)

theorem FirstUnresolved.exists_mem {os : List Occurrence} {name : Text}
    (h : FirstUnresolved pass resolve (os.map Occurrence.name) name) :
    ∃ o ∈ os, pass.accepts o.name = true ∧ resolve o.name = none := by
  obtain ⟨ha, hn, before, after, hnames, -⟩ := h
  have hmem : name ∈ os.map Occurrence.name := by
    rw [hnames]
    exact List.mem_append_right before List.mem_cons_self
  obtain ⟨o, ho, rfl⟩ := List.mem_map.1 hmem
  exact ⟨o, ho, ha, hn⟩

theorem FilledFrom.not_exists_unresolved {offset : Nat} {os : List Occurrence}
    {source result : Text} (h : FilledFrom resolve offset (pass.own os) source result) :
    ¬∃ o ∈ os, pass.accepts o.name = true ∧ resolve o.name = none := by
  rintro ⟨o, ho, ha, hn⟩
  have hsome := h.isSome (List.mem_filter.2 ⟨ho, ha⟩)
  rw [hn] at hsome
  cases hsome

theorem Fulfils.exists_error_iff {offset : Nat} {os : List Occurrence} {source : Text}
    {result : Except UndefinedVariable Text} (h : Fulfils pass resolve offset os source result) :
    (∃ u, result = .error u) ↔ ∃ o ∈ os, pass.accepts o.name = true ∧ resolve o.name = none := by
  cases h with
  | failure hname => exact ⟨fun _ => hname.exists_mem, fun _ => ⟨_, rfl⟩⟩
  | success hfilled =>
    refine ⟨?_, fun hunresolved => absurd hunresolved hfilled.not_exists_unresolved⟩
    rintro ⟨u, hu⟩
    cases hu

theorem Fulfils.unique {offset : Nat} {os : List Occurrence} {source : Text}
    {result other : Except UndefinedVariable Text} (h : Fulfils pass resolve offset os source result)
    (hother : Fulfils pass resolve offset os source other) : result = other := by
  cases h with
  | failure hname =>
    cases hother with
    | failure hname' =>
      rw [firstUnresolved_iff] at hname hname'
      rw [hname, Option.some.injEq] at hname'
      rw [hname']
    | success hfilled => exact absurd hname.exists_mem hfilled.not_exists_unresolved
  | success hfilled =>
    cases hother with
    | failure hname => exact absurd hname.exists_mem hfilled.not_exists_unresolved
    | success hfilled' => rw [hfilled.unique hfilled']

theorem Fulfils.skip {offset : Nat} {o : Occurrence} {os : List Occurrence} {source : Text}
    {result : Except UndefinedVariable Text} (h : Fulfils pass resolve offset os source result)
    (ha : ¬pass.accepts o.name = true) : Fulfils pass resolve offset (o :: os) source result := by
  cases h with
  | failure hname => exact .failure (hname.cons fun hacc => absurd hacc ha)
  | success hfilled =>
    apply Fulfils.success
    have hown : pass.own (o :: os) = pass.own os := List.filter_cons_of_neg ha
    rw [hown]
    exact hfilled

theorem Fulfils.fill {offset : Nat} {o : Occurrence} {os : List Occurrence} {value : Value}
    {before source : Text} {result : Except UndefinedVariable Text}
    (h : Fulfils pass resolve o.stop os source result) (ha : pass.accepts o.name = true)
    (hvalue : resolve o.name = some value) (hstart : o.start = offset + before.byteLength)
    (hstop : o.stop = o.start + (Piece.placeholder o.name).source.byteLength) :
    Fulfils pass resolve offset (o :: os) (before ++ ((Piece.placeholder o.name).source ++ source))
      (result.map fun filled => before ++ (value.promptText ++ filled)) := by
  cases h with
  | failure hname =>
    have hsome : (resolve o.name).isSome = true := by
      rw [hvalue]
      rfl
    exact .failure (hname.cons fun _ => hsome)
  | success hfilled =>
    apply Fulfils.success
    have hown : pass.own (o :: os) = o :: pass.own os := List.filter_cons_of_pos ha
    rw [hown]
    exact .filled hstart hstop hvalue hfilled

theorem map_name_occurrencesFrom (offset : Nat) (ps : List Piece) :
    (occurrencesFrom offset ps).map Occurrence.name = Piece.names ps := by
  induction ps generalizing offset with
  | nil => rfl
  | cons piece ps ih =>
    cases piece with
    | character c => exact ih _
    | placeholder name => exact congrArg (name :: ·) (ih _)

/-- A row whose names have values is filled at the places of its placeholders. -/
theorem filledFrom_row {ps : List Piece}
    (h : (Piece.names ps).find? (pass.isUndefined resolve) = none) (offset : Nat) :
    FilledFrom resolve offset (pass.own (occurrencesFrom offset ps)) (Text.ofPieces ps)
      (Text.ofPieces (Piece.fillRow (pass.text? resolve) ps)) := by
  induction ps generalizing offset with
  | nil => exact .kept offset []
  | cons piece ps ih =>
    cases piece with
    | character c =>
      have hrest := ih h (offset + Text.byteLength [c])
      rw [Text.ofPieces_cons, Piece.fillRow_character, Text.ofPieces_cons]
      exact hrest.append
    | placeholder name =>
      have hdefined := List.find?_eq_none.1 h
      have hrest := ih (List.find?_eq_none.2 fun other hm => hdefined other (by simp [hm]))
        (offset + (Piece.placeholder name).source.byteLength)
      by_cases ha : pass.accepts name = true
      · obtain ⟨value, hvalue⟩ : ∃ value, resolve name = some value := by
          have hname := hdefined name (by simp)
          rw [← Option.isSome_iff_exists]
          simpa [Pass.isUndefined, ha, Option.isSome_iff_ne_none] using hname
        have htext : pass.text? resolve name = some value.promptText := by
          simp [Pass.text?, ha, hvalue]
        have hown : pass.own (occurrencesFrom offset (.placeholder name :: ps)) =
            ⟨name, offset, offset + (Piece.placeholder name).source.byteLength⟩ ::
              pass.own (occurrencesFrom (offset + (Piece.placeholder name).source.byteLength) ps) :=
          List.filter_cons_of_pos ha
        rw [hown, Text.ofPieces_cons, Piece.fillRow_placeholder_some htext, Text.ofPieces_append,
          Text.ofPieces_characters]
        exact @FilledFrom.filled resolve offset ⟨name, offset, _⟩ _ value [] _ _ rfl rfl hvalue hrest
      · have htext : pass.text? resolve name = none := if_neg ha
        have hown : pass.own (occurrencesFrom offset (.placeholder name :: ps)) =
            pass.own (occurrencesFrom (offset + (Piece.placeholder name).source.byteLength) ps) :=
          List.filter_cons_of_neg ha
        rw [hown, Text.ofPieces_cons, Piece.fillRow_placeholder_none htext, Text.ofPieces_cons]
        exact hrest.append

/-- Filling a text piece by piece gives what a pass has to give. -/
theorem fulfils_substitute (pass : Pass) (resolve : Text → Option Value) (t : Text) :
    Fulfils pass resolve 0 t.occurrences t (substitute pass resolve t) := by
  rw [substitute, fillPieces_eq]
  cases hfind : (Piece.names t.pieces).find? (pass.isUndefined resolve) with
  | some name =>
    apply Fulfils.failure
    rw [firstUnresolved_iff, Text.occurrences, map_name_occurrencesFrom, hfind]
  | none =>
    have hrow := filledFrom_row hfind 0
    rw [Text.ofPieces_pieces] at hrow
    exact .success hrow

end

end PromptChain
