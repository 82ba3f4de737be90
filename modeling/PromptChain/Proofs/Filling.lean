import PromptChain.Prompt
import PromptChain.Proofs.Outcome

/-! Filling placeholders: what a prompt depends on, and which names can stop it. -/
namespace PromptChain

@[simp] theorem Pass.accepts_free (name : Text) :
    Pass.free.accepts name = !Step.isReference name := rfl

@[simp] theorem Pass.accepts_step (name : Text) :
    Pass.step.accepts name = Step.isReference name := rfl

def Piece.names (ps : List Piece) : List Text :=
  ps.filterMap Piece.name?

@[simp] theorem Piece.names_character (c : Char) (ps : List Piece) :
    names (.character c :: ps) = names ps := rfl

@[simp] theorem Piece.names_placeholder (name : Text) (ps : List Piece) :
    names (.placeholder name :: ps) = name :: names ps := rfl

section

variable {pass : Pass} {resolve resolve' : Text → Option Value}

theorem fill_placeholder_error {name : Text} {e : UndefinedVariable}
    (h : Piece.fill pass resolve (.placeholder name) = .error e) :
    e.name = name ∧ pass.accepts name = true ∧ resolve name = none := by
  simp only [Piece.fill] at h
  split at h
  · next ha =>
    split at h
    · cases h
    · next hn =>
      cases h
      exact ⟨rfl, ha, hn⟩
  · cases h

/-- Filling pieces reads the values of the accepted names only. -/
theorem fillPieces_congr {ps : List Piece}
    (h : ∀ name ∈ Piece.names ps, pass.accepts name = true → resolve name = resolve' name) :
    fillPieces pass resolve ps = fillPieces pass resolve' ps := by
  induction ps with
  | nil => rfl
  | cons piece rest ih =>
    cases piece with
    | character c => simp only [fillPieces, Piece.fill, ih h]
    | placeholder name =>
      have hrest := ih fun other hm => h other (by simp [hm])
      by_cases ha : pass.accepts name = true
      · have hn := h name (by simp) ha
        simp only [fillPieces, Piece.fill, hn, hrest]
      · simp only [fillPieces, Piece.fill, if_neg ha, hrest]

/-- Only an accepted name without a value stops the filling. -/
theorem fillPieces_error {ps : List Piece} {e : UndefinedVariable}
    (h : fillPieces pass resolve ps = .error e) :
    e.name ∈ Piece.names ps ∧ pass.accepts e.name = true ∧ resolve e.name = none := by
  induction ps with
  | nil => cases h
  | cons piece rest ih =>
    simp only [fillPieces, Outcome.bind_eq_error_iff] at h
    cases piece with
    | character c =>
      rcases h with h | ⟨_, -, h | ⟨_, -, h⟩⟩
      · cases h
      · exact ih h
      · cases h
    | placeholder name =>
      rcases h with h | ⟨_, -, h | ⟨_, -, h⟩⟩
      · obtain ⟨hn, ha, hr⟩ := fill_placeholder_error h
        rw [hn]
        exact ⟨by simp, ha, hr⟩
      · obtain ⟨hm, ha, hr⟩ := ih h
        exact ⟨by simp [hm], ha, hr⟩
      · cases h

/-- Where the filling succeeds, every accepted name has a value. -/
theorem isSome_of_fillPieces {ps : List Piece} {t : Text}
    (h : fillPieces pass resolve ps = .ok t) {name : Text} (hm : name ∈ Piece.names ps)
    (ha : pass.accepts name = true) : (resolve name).isSome = true := by
  induction ps generalizing t with
  | nil => cases hm
  | cons piece rest ih =>
    simp only [fillPieces, Outcome.bind_eq_ok_iff] at h
    obtain ⟨filled, hfill, others, hrest, -⟩ := h
    cases piece with
    | character c => exact ih hrest hm
    | placeholder other =>
      rcases List.mem_cons.1 hm with rfl | hm
      · cases hv : resolve name with
        | none => simp [Piece.fill, ha, hv] at hfill
        | some value => rfl
      · exact ih hrest hm

end

/-- A prompt reads its free names in the bindings and the environment, and names of outputs in the
environment. The latter may come from values, so that the text does not tell which they are. -/
theorem render_congr {e e' : Environment} {bindings : Table Value} {t : Text}
    (hfree : ∀ name ∈ t.placeholders, Step.isReference name = false →
      (bindings.get? name).or (e.get? name) = (bindings.get? name).or (e'.get? name))
    (hstep : ∀ name, Step.isReference name = true → e.get? name = e'.get? name) :
    render e bindings t = render e' bindings t := by
  have hf : substitute .free (fun name => (bindings.get? name).or (e.get? name)) t =
      substitute .free (fun name => (bindings.get? name).or (e'.get? name)) t := by
    apply fillPieces_congr
    intro name hm ha
    exact hfree name hm (by simpa using ha)
  have hs : ∀ filled : Text, substitute .step (fun name => e.get? name) filled =
      substitute .step (fun name => e'.get? name) filled := by
    intro filled
    apply fillPieces_congr
    intro name _ ha
    exact hstep name (by simpa using ha)
  simp only [render, hf, hs]

/-- A prompt fails at a free name of its text, or at the name of an output that stands in the text
after the free names were filled. In both cases the name has no value. -/
theorem render_error {e : Environment} {bindings : Table Value} {t : Text} {u : UndefinedVariable}
    (h : render e bindings t = .error u) :
    e.get? u.name = none ∧
      (u.name ∈ t.placeholders ∨
        ∃ filled, substitute .free (fun name => (bindings.get? name).or (e.get? name)) t =
          .ok filled ∧ u.name ∈ filled.placeholders) := by
  simp only [render, Outcome.bind_eq_error_iff] at h
  rcases h with hf | ⟨filled, hf, hs⟩
  · obtain ⟨hm, -, hn⟩ := fillPieces_error hf
    exact ⟨(Option.or_eq_none_iff.1 hn).2, Or.inl hm⟩
  · obtain ⟨hm, -, hn⟩ := fillPieces_error hs
    exact ⟨hn, Or.inr ⟨filled, hf, hm⟩⟩

theorem isSome_of_render {e : Environment} {bindings : Table Value} {t prompt : Text}
    (h : render e bindings t = .ok prompt) {name : Text} (hm : name ∈ t.placeholders)
    (hr : Step.isReference name = false) :
    ((bindings.get? name).or (e.get? name)).isSome = true := by
  simp only [render, Outcome.bind_eq_ok_iff] at h
  obtain ⟨filled, hf, -⟩ := h
  exact isSome_of_fillPieces hf hm (by simp [hr])

end PromptChain
