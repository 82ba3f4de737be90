import PromptChain.Proofs.PlacedFilling

/-! Filling at a cursor. A pass may go over a text with an offset in UTF-8, up to which the text is
dealt with, and copy the slices between its placeholders. The offset never passes the placeholder
that comes next, no slice leaves the text or cuts a character, and what is written is the text with
the names of the pass filled and nothing else changed. -/
namespace PromptChain

namespace Text

/-- A text cut in two at an offset in UTF-8, if the offset lies in the text and cuts no character. -/
def cutAt? : Text → (offset : Nat) → Option (Text × Text)
  | t, 0 => some ([], t)
  | [], _ + 1 => none
  | c :: t, offset + 1 =>
    if c.utf8Size ≤ offset + 1 then
      (cutAt? t (offset + 1 - c.utf8Size)).map fun (front, back) => (c :: front, back)
    else
      none

/-- The part of a text between two offsets, if they are in order, lie in the text and cut no
character. -/
def slice? (t : Text) (start stop : Nat) : Option Text := do
  let (front, _) ← t.cutAt? stop
  let (_, part) ← front.cutAt? start
  some part

theorem eq_of_cutAt? {t front back : Text} {offset : Nat}
    (h : t.cutAt? offset = some (front, back)) : t = front ++ back ∧ front.byteLength = offset := by
  fun_induction cutAt? t offset generalizing front with
  | case1 t =>
    cases h
    exact ⟨rfl, rfl⟩
  | case2 => cases h
  | case3 c t offset hc ih =>
    obtain ⟨⟨front', back'⟩, hcut, hpair⟩ := Option.map_eq_some_iff.1 h
    cases hpair
    obtain ⟨ht, hlength⟩ := ih hcut
    refine ⟨by rw [ht, List.cons_append], ?_⟩
    rw [byteLength, hlength]
    omega
  | case4 => cases h

theorem cutAt?_append (front back : Text) :
    (front ++ back).cutAt? front.byteLength = some (front, back) := by
  induction front with
  | nil => rw [List.nil_append, byteLength, cutAt?]
  | cons c front ih =>
    have hpos := Char.utf8Size_pos c
    obtain ⟨offset, hoffset⟩ : ∃ offset, c.utf8Size + byteLength front = offset + 1 :=
      ⟨c.utf8Size + byteLength front - 1, by omega⟩
    have hrest : offset + 1 - c.utf8Size = byteLength front := by omega
    rw [List.cons_append, byteLength, hoffset, cutAt?, if_pos (by omega), hrest, ih]
    rfl

theorem cutAt?_eq_some_iff {t front back : Text} {offset : Nat} :
    t.cutAt? offset = some (front, back) ↔ t = front ++ back ∧ front.byteLength = offset := by
  constructor
  · exact eq_of_cutAt?
  · rintro ⟨rfl, rfl⟩
    exact cutAt?_append front back

theorem slice?_eq_some_iff {t part : Text} {start stop : Nat} :
    t.slice? start stop = some part ↔ ∃ front back, t = front ++ (part ++ back) ∧
      front.byteLength = start ∧ start + part.byteLength = stop := by
  constructor
  · intro h
    obtain ⟨⟨longer, back⟩, hstop, h⟩ := Option.bind_eq_some_iff.1 h
    obtain ⟨⟨front, part'⟩, hstart, h⟩ := Option.bind_eq_some_iff.1 h
    cases h
    obtain ⟨ht, hlonger⟩ := cutAt?_eq_some_iff.1 hstop
    obtain ⟨hfront, hlength⟩ := cutAt?_eq_some_iff.1 hstart
    refine ⟨front, back, by rw [ht, hfront, List.append_assoc], hlength, ?_⟩
    rw [← hlonger, hfront, byteLength_append, hlength]
  · rintro ⟨front, back, ht, hstart, hstop⟩
    have hlonger : t.cutAt? stop = some (front ++ part, back) := by
      apply cutAt?_eq_some_iff.2
      exact ⟨by rw [ht, List.append_assoc], by rw [byteLength_append, hstart, hstop]⟩
    have hfront : (front ++ part).cutAt? start = some (front, part) :=
      cutAt?_eq_some_iff.2 ⟨rfl, hstart⟩
    unfold slice?
    rw [hlonger]
    change Option.bind ((front ++ part).cutAt? start) _ = _
    rw [hfront]
    rfl

theorem isBoundary_byteLength (t : Text) : t.IsBoundary t.byteLength :=
  ⟨t, [], (List.append_nil t).symm, rfl⟩

theorem IsBoundary.le_byteLength {t : Text} {offset : Nat} (h : t.IsBoundary offset) :
    offset ≤ t.byteLength := by
  obtain ⟨front, back, rfl, hfront⟩ := h
  rw [byteLength_append]
  omega

/-- There is a slice between two offsets exactly if they are in order and cut no character. -/
theorem isSome_slice?_iff {t : Text} {start stop : Nat} :
    (t.slice? start stop).isSome = true ↔
      start ≤ stop ∧ t.IsBoundary start ∧ t.IsBoundary stop := by
  constructor
  · intro h
    obtain ⟨part, hpart⟩ := Option.isSome_iff_exists.1 h
    obtain ⟨front, back, ht, hstart, hstop⟩ := slice?_eq_some_iff.1 hpart
    refine ⟨by omega, ⟨front, part ++ back, ht, hstart⟩, front ++ part, back, ?_, ?_⟩
    · rw [ht, List.append_assoc]
    · rw [byteLength_append, hstart, hstop]
  · rintro ⟨hle, ⟨front, rest, hfront, hstart⟩, longer, back, hlonger, hstop⟩
    have hbytes : front.byteLength ≤ longer.byteLength := by omega
    obtain ⟨part, hpart, -⟩ := exists_between (hfront.symm.trans hlonger) hbytes
    have hslice : t.slice? start stop = some part := by
      apply slice?_eq_some_iff.2
      refine ⟨front, back, by rw [hlonger, hpart, List.append_assoc], hstart, ?_⟩
      rw [← hstop, hpart, byteLength_append, hstart]
    rw [hslice]
    rfl

end Text

/-- A pass at work on a text: what it has written, the offset up to which the text is dealt with, and
the placeholders that are still to come. -/
structure Cursor where
  written : Text
  offset : Nat
  left : List Occurrence

namespace Cursor

/-- What comes of a step: a pass goes on, ends with a result, or asks for a slice that the text does
not have. -/
inductive Move where
  | onward (next : Cursor)
  | finished (result : Except UndefinedVariable Text)
  | astray

def start (t : Text) : Cursor :=
  ⟨[], 0, t.occurrences⟩

/-- A step of a pass. A placeholder of the other pass is left for the slice that will hold it; one of
this pass needs a value, and is written after the slice before it. -/
def step (pass : Pass) (resolve : Text → Option Value) (t : Text) (k : Cursor) : Move :=
  match k.left with
  | [] =>
    match t.slice? k.offset t.byteLength with
    | some rest => .finished (.ok (k.written ++ rest))
    | none => .astray
  | o :: left =>
    if pass.accepts o.name then
      match resolve o.name with
      | none => .finished (.error ⟨o.name⟩)
      | some value =>
        match t.slice? k.offset o.start with
        | some between => .onward ⟨k.written ++ (between ++ value.promptText), o.stop, left⟩
        | none => .astray
    else
      .onward ⟨k.written, k.offset, left⟩

inductive Reaches (pass : Pass) (resolve : Text → Option Value) (t : Text) : Cursor → Prop where
  | start : Reaches pass resolve t (start t)
  | step {k next : Cursor} : Reaches pass resolve t k → k.step pass resolve t = .onward next →
      Reaches pass resolve t next

/-- The offset cuts no character, and has not passed a placeholder that is still to come. -/
structure Sound (t : Text) (k : Cursor) : Prop where
  boundary : t.IsBoundary k.offset
  left : k.left <:+ t.occurrences
  behind : ∀ o ∈ k.left, k.offset ≤ o.start

/-- What a step can do where the text has the slices it asks for. -/
inductive Goes (pass : Pass) (resolve : Text → Option Value) (t : Text) (k : Cursor) :
    Move → Prop where
  | ends {rest : Text} : k.left = [] → t.slice? k.offset t.byteLength = some rest →
      Goes pass resolve t k (.finished (.ok (k.written ++ rest)))
  | fails {o : Occurrence} {left : List Occurrence} : k.left = o :: left →
      pass.accepts o.name = true → resolve o.name = none →
      Goes pass resolve t k (.finished (.error ⟨o.name⟩))
  | skips {o : Occurrence} {left : List Occurrence} : k.left = o :: left →
      ¬pass.accepts o.name = true →
      Goes pass resolve t k (.onward ⟨k.written, k.offset, left⟩)
  | fills {o : Occurrence} {left : List Occurrence} {value : Value} {between : Text} :
      k.left = o :: left → pass.accepts o.name = true → resolve o.name = some value →
      t.slice? k.offset o.start = some between →
      Goes pass resolve t k (.onward ⟨k.written ++ (between ++ value.promptText), o.stop, left⟩)

section

variable {pass : Pass} {resolve : Text → Option Value} {t : Text} {k next : Cursor}

theorem mem_of_left {o : Occurrence} {left : List Occurrence} (h : k.left = o :: left) :
    o ∈ k.left := by
  rw [h]
  exact List.mem_cons_self

theorem suffix_of_left {o : Occurrence} {left : List Occurrence} (h : k.left = o :: left) :
    left <:+ k.left := by
  rw [h]
  exact List.suffix_cons o left

theorem sound_start (t : Text) : (start t).Sound t where
  boundary := ⟨[], t, rfl, rfl⟩
  left := List.suffix_rfl
  behind _ _ := Nat.zero_le _

theorem Sound.standsIn (h : k.Sound t) {o : Occurrence} (ho : o ∈ k.left) :
    ∃ front back, o.StandsIn t front back :=
  Occurrence.mem_occurrences_iff.1 (h.left.subset ho)

theorem Sound.exists_rest (h : k.Sound t) :
    ∃ rest, t.slice? k.offset t.byteLength = some rest := by
  apply Option.isSome_iff_exists.1
  apply Text.isSome_slice?_iff.2
  exact ⟨h.boundary.le_byteLength, h.boundary, Text.isBoundary_byteLength t⟩

theorem Sound.exists_slice (h : k.Sound t) {o : Occurrence} (ho : o ∈ k.left) :
    ∃ between, t.slice? k.offset o.start = some between := by
  obtain ⟨front, back, hstands⟩ := h.standsIn ho
  apply Option.isSome_iff_exists.1
  apply Text.isSome_slice?_iff.2
  exact ⟨h.behind o ho, h.boundary, hstands.isBoundary.1⟩

/-- Where the offset is sound, a step does not go astray. -/
theorem Sound.goes (h : k.Sound t) : Goes pass resolve t k (k.step pass resolve t) := by
  cases hleft : k.left with
  | nil =>
    obtain ⟨rest, hrest⟩ := h.exists_rest
    have hstep : k.step pass resolve t = .finished (.ok (k.written ++ rest)) := by
      simp only [step, hleft, hrest]
    rw [hstep]
    exact .ends hleft hrest
  | cons o left =>
    by_cases ha : pass.accepts o.name = true
    · cases hvalue : resolve o.name with
      | none =>
        have hstep : k.step pass resolve t = .finished (.error ⟨o.name⟩) := by
          simp only [step, hleft, if_pos ha, hvalue]
        rw [hstep]
        exact .fails hleft ha hvalue
      | some value =>
        obtain ⟨between, hslice⟩ := h.exists_slice (mem_of_left hleft)
        have hstep : k.step pass resolve t =
            .onward ⟨k.written ++ (between ++ value.promptText), o.stop, left⟩ := by
          simp only [step, hleft, if_pos ha, hvalue, hslice]
        rw [hstep]
        exact .fills hleft ha hvalue hslice
    · have hstep : k.step pass resolve t = .onward ⟨k.written, k.offset, left⟩ := by
        simp only [step, hleft, if_neg ha]
      rw [hstep]
      exact .skips hleft ha

theorem Sound.step_ne_astray (h : k.Sound t) : k.step pass resolve t ≠ .astray := by
  intro hastray
  have hgoes : Goes pass resolve t k (k.step pass resolve t) := h.goes
  rw [hastray] at hgoes
  cases hgoes

/-- A step keeps the offset sound, since a placeholder ends before the next one starts. -/
theorem Sound.step (h : k.Sound t) (hstep : k.step pass resolve t = .onward next) :
    next.Sound t := by
  have hgoes : Goes pass resolve t k (k.step pass resolve t) := h.goes
  rw [hstep] at hgoes
  cases hgoes with
  | @skips o left hleft _ =>
    have hsuffix := suffix_of_left hleft
    exact ⟨h.boundary, hsuffix.trans h.left, fun p hp => h.behind p (hsuffix.subset hp)⟩
  | @fills o left value between hleft _ _ _ =>
    have hpairwise : k.left.Pairwise fun o p => o.start < p.start ∧ o.stop ≤ p.start :=
      (pairwise_occurrencesFrom 0 t.pieces).sublist h.left.sublist
    rw [hleft, List.pairwise_cons] at hpairwise
    obtain ⟨front, back, hstands⟩ := h.standsIn (mem_of_left hleft)
    exact ⟨hstands.isBoundary.2, (suffix_of_left hleft).trans h.left, fun p hp => (hpairwise.1 p hp).2⟩

theorem Reaches.sound (h : Reaches pass resolve t k) : k.Sound t := by
  induction h with
  | start => exact sound_start t
  | step _ hstep ih => exact ih.step hstep

/-- The slice before a placeholder stands at the start of the rest of the text, and the placeholder
after it. -/
theorem Sound.exists_back (h : k.Sound t) {o : Occurrence} (ho : o ∈ k.left)
    {front rest between : Text} (ht : t = front ++ rest) (hfront : front.byteLength = k.offset)
    (hslice : t.slice? k.offset o.start = some between) :
    ∃ back, rest = between ++ ((Piece.placeholder o.name).source ++ back) ∧
      o.start = k.offset + between.byteLength ∧
      o.stop = o.start + (Piece.placeholder o.name).source.byteLength := by
  obtain ⟨longer, back, hstands⟩ := h.standsIn ho
  have hle : front.byteLength ≤ longer.byteLength := by
    rw [hfront, ← hstands.start]
    exact h.behind o ho
  obtain ⟨between', hlonger, hrest⟩ := Text.exists_between (ht.symm.trans hstands.text) hle
  have hstart : o.start = k.offset + between'.byteLength := by
    rw [hstands.start, hlonger, Text.byteLength_append, hfront]
  have hslice' : t.slice? k.offset o.start = some between' := by
    apply Text.slice?_eq_some_iff.2
    refine ⟨front, (Piece.placeholder o.name).source ++ back, ?_, hfront, hstart.symm⟩
    rw [ht, hrest]
  rw [hslice, Option.some.injEq] at hslice'
  rw [hslice']
  exact ⟨back, hrest, hstart, hstands.stop⟩

/-- From each cursor on, a pass ends, and adds to what is written what it has to give for the rest of
the text. -/
theorem Reaches.exists_finished {k : Cursor} (h : Reaches pass resolve t k) {front rest : Text}
    (ht : t = front ++ rest) (hfront : front.byteLength = k.offset) :
    ∃ last result, Reaches pass resolve t last ∧
      last.step pass resolve t = .finished (result.map (k.written ++ ·)) ∧
      Fulfils pass resolve k.offset k.left rest result := by
  have hgoes : Goes pass resolve t k (k.step pass resolve t) := h.sound.goes
  generalize hmove : k.step pass resolve t = move at hgoes
  cases hgoes with
  | @ends rest' hleft hslice =>
    have hrest : t.slice? k.offset t.byteLength = some rest := by
      apply Text.slice?_eq_some_iff.2
      refine ⟨front, [], by rw [ht, List.append_nil], hfront, ?_⟩
      rw [ht, Text.byteLength_append, hfront]
    rw [hslice, Option.some.injEq] at hrest
    rw [hrest] at hmove
    refine ⟨k, .ok rest, h, hmove, ?_⟩
    rw [hleft]
    exact .success (.kept k.offset rest)
  | @fails o left hleft ha hvalue =>
    refine ⟨k, .error ⟨o.name⟩, h, hmove, ?_⟩
    rw [hleft]
    apply Fulfils.failure
    exact ⟨ha, hvalue, [], left.map Occurrence.name, rfl, fun _ hm => absurd hm List.not_mem_nil⟩
  | @skips o left hleft ha =>
    obtain ⟨last, result, hlast, hfinished, hfulfils⟩ := (h.step hmove).exists_finished ht hfront
    refine ⟨last, result, hlast, hfinished, ?_⟩
    rw [hleft]
    exact hfulfils.skip ha
  | @fills o left value between hleft ha hvalue hslice =>
    obtain ⟨back, hrest, hstart, hstop⟩ :=
      h.sound.exists_back (mem_of_left hleft) ht hfront hslice
    have hafter : t = (front ++ (between ++ (Piece.placeholder o.name).source)) ++ back := by
      rw [ht, hrest, List.append_assoc, List.append_assoc]
    have hbehind : (front ++ (between ++ (Piece.placeholder o.name).source)).byteLength = o.stop := by
      rw [Text.byteLength_append, Text.byteLength_append]
      omega
    obtain ⟨last, result, hlast, hfinished, hfulfils⟩ :=
      (h.step hmove).exists_finished hafter hbehind
    refine ⟨last, result.map fun filled => between ++ (value.promptText ++ filled), hlast, ?_, ?_⟩
    · rw [hfinished]
      cases result with
      | error u => rfl
      | ok filled => simp [Except.map]
    · rw [hleft, hrest]
      exact hfulfils.fill ha hvalue hstart hstop
termination_by k.left.length
decreasing_by
  · simp [hleft]
  · simp [hleft]

end

/-- A pass at a cursor ends with what filling the text piece by piece gives. -/
theorem exists_finished (pass : Pass) (resolve : Text → Option Value) (t : Text) :
    ∃ last, Reaches pass resolve t last ∧
      last.step pass resolve t = .finished (substitute pass resolve t) := by
  have hstart : Reaches pass resolve t (start t) := .start
  have hwhole : t = [] ++ t := rfl
  obtain ⟨last, result, hlast, hfinished, hfulfils⟩ := hstart.exists_finished hwhole rfl
  have hresult : result = substitute pass resolve t :=
    hfulfils.unique (fulfils_substitute pass resolve t)
  refine ⟨last, hlast, ?_⟩
  rw [hfinished, ← hresult]
  cases result <;> rfl

end Cursor

/-- A pass over a text, with a cursor or piece by piece, is exact. The cursor never passes the
placeholder that comes next, and the text has every slice that is asked for. The pass fails exactly
if one of its names has no value, at the first such name, and else gives the text with its own
placeholders, at their places, replaced by values and with all the rest kept. -/
theorem substitute_exact (pass : Pass) (resolve : Text → Option Value) (t : Text) :
    (∀ k, Cursor.Reaches pass resolve t k →
      t.IsBoundary k.offset ∧ k.offset ≤ t.byteLength ∧
      (∀ o ∈ k.left, k.offset ≤ o.start ∧ t.IsBoundary o.start ∧ o.start ≤ t.byteLength) ∧
      k.step pass resolve t ≠ .astray) ∧
    (∃ last, Cursor.Reaches pass resolve t last ∧
      last.step pass resolve t = .finished (substitute pass resolve t)) ∧
    ((∃ u, substitute pass resolve t = .error u) ↔
      ∃ o ∈ t.occurrences, pass.accepts o.name = true ∧ resolve o.name = none) ∧
    (∀ u, substitute pass resolve t = .error u ↔
      FirstUnresolved pass resolve (t.occurrences.map Occurrence.name) u.name) ∧
    (∀ result, substitute pass resolve t = .ok result ↔
      FilledFrom resolve 0 (pass.own t.occurrences) t result) := by
  have hfulfils := fulfils_substitute pass resolve t
  refine ⟨?_, Cursor.exists_finished pass resolve t, hfulfils.exists_error_iff, ?_, ?_⟩
  · intro k hk
    have hsound := hk.sound
    refine ⟨hsound.boundary, hsound.boundary.le_byteLength, ?_, hsound.step_ne_astray⟩
    intro o ho
    obtain ⟨front, back, hstands⟩ := hsound.standsIn ho
    have hboundary := hstands.isBoundary.1
    exact ⟨hsound.behind o ho, hboundary, hboundary.le_byteLength⟩
  · intro u
    constructor
    · intro h
      rw [h] at hfulfils
      cases hfulfils with
      | failure hname => exact hname
    · intro hname
      exact hfulfils.unique (.failure hname)
  · intro result
    constructor
    · intro h
      rw [h] at hfulfils
      cases hfulfils with
      | success hfilled => exact hfilled
    · intro hfilled
      exact hfulfils.unique (.success hfilled)

/-- Placeholders of both passes side by side, one of them without a name, among characters of two
bytes. -/
def sideBySide : Text :=
  "é{{step_1}}{{a}}{{}}ü".toList

def freeValues (name : Text) : Option Value :=
  if name = ['a'] then some (.string ['ß'])
  else if name = [] then some (.string "{{a}}".toList)
  else none

theorem occurrences_sideBySide : sideBySide.occurrences =
    [⟨"step_1".toList, 2, 12⟩, ⟨['a'], 12, 17⟩, ⟨[], 17, 21⟩] := by
  decide +kernel

theorem substitute_free_sideBySide :
    substitute .free freeValues sideBySide = .ok "é{{step_1}}ß{{a}}ü".toList := by
  cbv

theorem substitute_step_sideBySide :
    substitute .step freeValues sideBySide = .error ⟨"step_1".toList⟩ := by
  cbv

/-- The cursor at which the last placeholder follows at once. -/
theorem reaches_sideBySide : Cursor.Reaches .free freeValues sideBySide
    ⟨"é{{step_1}}ß".toList, 17, [⟨[], 17, 21⟩]⟩ := by
  have hskip : (Cursor.start sideBySide).step .free freeValues sideBySide =
      .onward ⟨[], 0, [⟨['a'], 12, 17⟩, ⟨[], 17, 21⟩]⟩ := by
    rw [Cursor.start, occurrences_sideBySide]
    rfl
  have hfill : Cursor.step .free freeValues sideBySide
      ⟨[], 0, [⟨['a'], 12, 17⟩, ⟨[], 17, 21⟩]⟩ =
        .onward ⟨"é{{step_1}}ß".toList, 17, [⟨[], 17, 21⟩]⟩ := rfl
  exact (Cursor.Reaches.start.step hskip).step hfill

theorem substitute_exact_sideBySide :
    sideBySide.IsBoundary 17 ∧
      FilledFrom freeValues 0 [⟨['a'], 12, 17⟩, ⟨[], 17, 21⟩] sideBySide
        "é{{step_1}}ß{{a}}ü".toList ∧
      FirstUnresolved .step freeValues ["step_1".toList, ['a'], []] "step_1".toList := by
  have hnames : sideBySide.occurrences.map Occurrence.name = ["step_1".toList, ['a'], []] := by
    rw [occurrences_sideBySide]
    rfl
  have hown : Pass.free.own sideBySide.occurrences = [⟨['a'], 12, 17⟩, ⟨[], 17, 21⟩] := by
    rw [occurrences_sideBySide]
    cbv
  obtain ⟨hcursor, -, -, -, hok⟩ := substitute_exact .free freeValues sideBySide
  obtain ⟨-, -, -, herror, -⟩ := substitute_exact .step freeValues sideBySide
  have hfilled := (hok _).1 substitute_free_sideBySide
  have hfirst := (herror _).1 substitute_step_sideBySide
  rw [hown] at hfilled
  rw [hnames] at hfirst
  exact ⟨(hcursor _ reaches_sideBySide).1, hfilled, hfirst⟩

end PromptChain
