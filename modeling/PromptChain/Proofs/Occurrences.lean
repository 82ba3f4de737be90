import Mathlib.Data.List.Pairwise
import PromptChain.Proofs.EncodedTexts
import PromptChain.Proofs.Scanning

/-! Placeholders at their places. The scan from the left finds each range of bytes that spells a
placeholder, and nothing else. -/
namespace PromptChain

namespace Text

/-- An offset, in UTF-8, at which no character is cut. -/
def IsBoundary (t : Text) (offset : Nat) : Prop :=
  ∃ front back, t = front ++ back ∧ front.byteLength = offset

/-- A placeholder is cut out wherever it stands, and the texts around it are scanned as if they
stood alone. -/
theorem pieces_append_source {name : Text} (h : isName name = true) (front back : Text) :
    pieces (front ++ ((Piece.placeholder name).source ++ back)) =
      pieces front ++ .placeholder name :: pieces back := by
  fun_induction pieces front with
  | case1 front other rest hp ih =>
    have hfront := eq_of_placeholder? hp
    have hother := isName_of_placeholder? hp
    rw [hfront, List.append_assoc, pieces_of_some (placeholder?_source_append hother _), ih]
    rfl
  | case2 => exact pieces_of_some (placeholder?_source_append h back)
  | case3 c rest hp ih =>
    -- A placeholder that starts before another one ends before it.
    have hnone :
        placeholder? (c :: (rest ++ ((Piece.placeholder name).source ++ back))) = none := by
      by_contra hsome
      obtain ⟨⟨other, after⟩, hother⟩ := Option.ne_none_iff_exists'.1 hsome
      have hname := isName_of_placeholder? hother
      have htext := eq_of_placeholder? hother
      rw [← List.cons_append] at htext
      obtain ⟨later, hlater⟩ := suffix_of_source_append hname (List.cons_ne_nil c rest) htext
      rw [hlater, ← List.append_assoc (Piece.placeholder other).source] at htext
      have hfront : c :: rest = (Piece.placeholder other).source ++ later :=
        List.append_cancel_right htext
      rw [hfront, placeholder?_source_append hname] at hp
      cases hp
    rw [List.cons_append, pieces_of_none hnone, ih]
    rfl

end Text

section Rows

theorem occurrencesFrom_append (offset : Nat) (ps qs : List Piece) :
    occurrencesFrom offset (ps ++ qs) = occurrencesFrom offset ps ++
      occurrencesFrom (offset + (Text.ofPieces ps).byteLength) qs := by
  induction ps generalizing offset with
  | nil => rfl
  | cons piece ps ih =>
    have hoffset : offset + (Text.ofPieces (piece :: ps)).byteLength =
        offset + piece.source.byteLength + (Text.ofPieces ps).byteLength := by
      rw [Text.ofPieces_cons, Text.byteLength_append, Nat.add_assoc]
    rw [hoffset]
    cases piece with
    | character c => exact ih _
    | placeholder name => exact congrArg (_ :: ·) (ih _)

/-- An occurrence in a row is a placeholder of the row, after the pieces before it. -/
theorem exists_of_mem_occurrencesFrom {offset : Nat} {ps : List Piece} {o : Occurrence}
    (h : o ∈ occurrencesFrom offset ps) :
    ∃ front back, ps = front ++ .placeholder o.name :: back ∧
      o.start = offset + (Text.ofPieces front).byteLength ∧
      o.stop = o.start + (Piece.placeholder o.name).source.byteLength := by
  induction ps generalizing offset with
  | nil => cases h
  | cons piece ps ih =>
    have hlater : o ∈ occurrencesFrom (offset + piece.source.byteLength) ps →
        ∃ front back, piece :: ps = front ++ .placeholder o.name :: back ∧
          o.start = offset + (Text.ofPieces front).byteLength ∧
          o.stop = o.start + (Piece.placeholder o.name).source.byteLength := by
      intro hm
      obtain ⟨front, back, hps, hstart, hstop⟩ := ih hm
      refine ⟨piece :: front, back, congrArg (piece :: ·) hps, ?_, hstop⟩
      rw [Text.ofPieces_cons, Text.byteLength_append]
      omega
    cases piece with
    | character c => exact hlater h
    | placeholder name =>
      rcases List.mem_cons.1 h with h | h
      · rw [h]
        exact ⟨[], ps, rfl, rfl, rfl⟩
      · exact hlater h

theorem byteLength_source_pos (name : Text) : 0 < (Piece.placeholder name).source.byteLength := by
  rw [Piece.source_placeholder, Text.byteLength]
  have := Char.utf8Size_pos '{'
  omega

theorem le_start_of_mem_occurrencesFrom {offset : Nat} {ps : List Piece} {o : Occurrence}
    (h : o ∈ occurrencesFrom offset ps) : offset ≤ o.start := by
  obtain ⟨front, -, -, hstart, -⟩ := exists_of_mem_occurrencesFrom h
  omega

/-- From left to right, each occurrence ends before the next one starts. -/
theorem pairwise_occurrencesFrom (offset : Nat) (ps : List Piece) :
    (occurrencesFrom offset ps).Pairwise fun o p => o.start < p.start ∧ o.stop ≤ p.start := by
  induction ps generalizing offset with
  | nil => exact .nil
  | cons piece ps ih =>
    cases piece with
    | character c => exact ih _
    | placeholder name =>
      refine List.pairwise_cons.2 ⟨?_, ih _⟩
      intro p hp
      have hle := le_start_of_mem_occurrencesFrom hp
      have hpos := byteLength_source_pos name
      dsimp only
      omega

end Rows

namespace Occurrence

/-- A range of the bytes of a text that spells a placeholder: two opening braces, a name without
braces and line feeds, and two closing braces. -/
structure Spelled (t : Text) (o : Occurrence) : Prop where
  name : ∀ c ∈ o.name, c ≠ '{' ∧ c ≠ '}' ∧ c ≠ '\n'
  inside : o.stop ≤ (Utf8.encode t).length
  bytes : (Utf8.encode t).extract o.start o.stop =
    Utf8.encode (['{', '{'] ++ o.name ++ ['}', '}'])

def later (offset : Nat) (o : Occurrence) : Occurrence :=
  ⟨o.name, offset + o.start, offset + o.stop⟩

theorem isName_iff {name : Text} :
    isName name = true ↔ ∀ c ∈ name, c ≠ '{' ∧ c ≠ '}' ∧ c ≠ '\n' := by
  simp only [isName, List.all_eq_true, isNameCharacter, Bool.and_eq_true, bne_iff_ne, and_assoc]

/-- A placeholder at its place in a text, told by characters. -/
structure StandsIn (t : Text) (o : Occurrence) (front back : Text) : Prop where
  name : isName o.name = true
  text : t = front ++ ((Piece.placeholder o.name).source ++ back)
  start : o.start = front.byteLength
  stop : o.stop = o.start + (Piece.placeholder o.name).source.byteLength

variable {t : Text} {o : Occurrence}

theorem mem_occurrences_iff : o ∈ t.occurrences ↔ ∃ front back, o.StandsIn t front back := by
  constructor
  · intro h
    obtain ⟨front, back, hpieces, hstart, hstop⟩ := exists_of_mem_occurrencesFrom h
    have hname : isName o.name = true := by
      apply Text.isName_of_mem_placeholders (t := t)
      rw [Text.placeholders, hpieces]
      simp [Piece.name?]
    refine ⟨Text.ofPieces front, Text.ofPieces back, hname, ?_, by omega, hstop⟩
    rw [← Text.ofPieces_pieces t, hpieces, Text.ofPieces_append, Text.ofPieces_cons]
  · intro ⟨front, back, hname, htext, hstart, hstop⟩
    have hself : o = ⟨o.name, (Text.ofPieces front.pieces).byteLength,
        (Text.ofPieces front.pieces).byteLength +
          (Piece.placeholder o.name).source.byteLength⟩ := by
      rw [Text.ofPieces_pieces, ← hstart, ← hstop]
    rw [Text.occurrences, htext, Text.pieces_append_source hname, occurrencesFrom_append, hself]
    apply List.mem_append_right
    rw [Nat.zero_add]
    exact List.mem_cons_self

private theorem take_append_extract (bytes : Bytes) {start stop : Nat} (h : start ≤ stop) :
    bytes.take start ++ (bytes.extract start stop ++ bytes.drop stop) = bytes := by
  have hdrop : bytes.drop stop = (bytes.drop start).drop (stop - start) := by
    rw [List.drop_drop]
    congr 1
    omega
  rw [hdrop, List.extract_eq_take_drop, List.take_append_drop, List.take_append_drop]

/-- A range that spells a placeholder starts and ends between characters, since the byte of a brace
is no part of another character. -/
theorem Spelled.exists_standsIn (h : o.Spelled t) : ∃ front back, o.StandsIn t front back := by
  obtain ⟨hname, hinside, hbytes⟩ := h
  have hlength : o.stop - o.start = (Piece.placeholder o.name).source.byteLength := by
    have hlength := congrArg List.length hbytes
    rw [List.extract_eq_take_drop, List.length_take, List.length_drop,
      Utf8.length_encode (_ ++ _)] at hlength
    change _ = (Piece.placeholder o.name).source.byteLength at hlength
    omega
  have hpos := byteLength_source_pos o.name
  have hsplit : Utf8.encode t = (Utf8.encode t).take o.start ++ UInt8.ofNat '{'.toNat ::
      (Utf8.encode ('{' :: (o.name ++ ['}', '}'])) ++ (Utf8.encode t).drop o.stop) := by
    have hrange := take_append_extract (Utf8.encode t) (by omega : o.start ≤ o.stop)
    rw [hbytes] at hrange
    exact hrange.symm
  obtain ⟨front, rest, ht, hfront, hrest⟩ := Utf8.exists_of_encode_ascii (by decide) hsplit
  obtain ⟨back, hback, -⟩ := Utf8.exists_of_encode_append hrest
  refine ⟨front, back, isName_iff.2 hname, ?_, ?_, by omega⟩
  · rw [ht, hback]
    rfl
  · rw [← Utf8.length_encode, hfront, List.length_take]
    omega

theorem StandsIn.spelled {front back : Text} (h : o.StandsIn t front back) : o.Spelled t := by
  obtain ⟨hname, htext, hstart, hstop⟩ := h
  have hbytes : Utf8.encode t = Utf8.encode front ++
      (Utf8.encode (Piece.placeholder o.name).source ++ Utf8.encode back) := by
    rw [htext, Utf8.encode_append, Utf8.encode_append]
  have hfront : (Utf8.encode front).length = o.start := by
    rw [Utf8.length_encode, hstart]
  have hsource : (Utf8.encode (Piece.placeholder o.name).source).length = o.stop - o.start := by
    rw [Utf8.length_encode]
    omega
  refine ⟨isName_iff.1 hname, ?_, ?_⟩
  · rw [hbytes, List.length_append, List.length_append]
    omega
  · rw [hbytes, List.extract_eq_take_drop, List.drop_left' hfront, List.take_left' hsource]
    rfl

theorem mem_occurrences_iff_spelled : o ∈ t.occurrences ↔ o.Spelled t := by
  rw [mem_occurrences_iff]
  exact ⟨fun ⟨_, _, h⟩ => h.spelled, Spelled.exists_standsIn⟩

theorem StandsIn.isBoundary {front back : Text} (h : o.StandsIn t front back) :
    t.IsBoundary o.start ∧ t.IsBoundary o.stop := by
  obtain ⟨-, htext, hstart, hstop⟩ := h
  refine ⟨⟨front, _, htext, hstart.symm⟩, front ++ (Piece.placeholder o.name).source, back, ?_, ?_⟩
  · rw [htext, List.append_assoc]
  · rw [Text.byteLength_append, hstop, hstart]

/-- A placeholder stays where it is if more text follows. -/
theorem StandsIn.append {front back : Text} (h : o.StandsIn t front back) (more : Text) :
    o.StandsIn (t ++ more) front (back ++ more) := by
  refine ⟨h.name, ?_, h.start, h.stop⟩
  rw [h.text, List.append_assoc, List.append_assoc]

/-- A placeholder is moved by the length of what comes before. -/
theorem StandsIn.later {front back : Text} (h : o.StandsIn t front back) (before : Text) :
    (o.later before.byteLength).StandsIn (before ++ t) (before ++ front) back := by
  refine ⟨h.name, ?_, ?_, ?_⟩
  · rw [h.text, List.append_assoc]
    rfl
  · rw [Text.byteLength_append, ← h.start]
    rfl
  · have hstop := h.stop
    simp only [Occurrence.later]
    omega

/-- Two ranges that spell placeholders are one range or do not overlap. -/
theorem Spelled.eq_or_apart {p : Occurrence} (ho : o.Spelled t) (hp : p.Spelled t) :
    o = p ∨ o.stop ≤ p.start ∨ p.stop ≤ o.start := by
  by_cases heq : o = p
  · exact Or.inl heq
  · have hpairwise : t.occurrences.Pairwise fun o p => o.stop ≤ p.start ∨ p.stop ≤ o.start :=
      (pairwise_occurrencesFrom 0 t.pieces).imp fun h => Or.inl h.2
    have : Std.Symm fun o p : Occurrence => o.stop ≤ p.start ∨ p.stop ≤ o.start :=
      ⟨fun _ _ h => h.symm⟩
    have ho' := mem_occurrences_iff_spelled.2 ho
    have hp' := mem_occurrences_iff_spelled.2 hp
    exact Or.inr (hpairwise.forall ho' hp' heq)

/-- The scan finds the placeholders, all of them and nothing else, from left to right. They do not
overlap and cut no character, and each is found again at its place when texts are put together. -/
theorem occurrences_exact (t : Text) :
    (∀ o : Occurrence, o ∈ t.occurrences ↔ o.Spelled t) ∧
    t.occurrences.Pairwise (fun o p => o.start < p.start ∧ o.stop ≤ p.start) ∧
    (∀ o : Occurrence, o.Spelled t → t.IsBoundary o.start ∧ t.IsBoundary o.stop) ∧
    (∀ o p : Occurrence, o.Spelled t → p.Spelled t →
      o = p ∨ o.stop ≤ p.start ∨ p.stop ≤ o.start) ∧
    ∀ more : Text,
      (∀ o ∈ t.occurrences, o ∈ (t ++ more).occurrences) ∧
      ∀ o ∈ more.occurrences, o.later t.byteLength ∈ (t ++ more).occurrences := by
  refine ⟨fun o => mem_occurrences_iff_spelled, pairwise_occurrencesFrom 0 t.pieces, ?_,
    fun o p => Spelled.eq_or_apart, fun more => ⟨?_, ?_⟩⟩
  · intro o h
    obtain ⟨front, back, hstands⟩ := h.exists_standsIn
    exact hstands.isBoundary
  · intro o h
    obtain ⟨front, back, hstands⟩ := mem_occurrences_iff.1 h
    exact mem_occurrences_iff.2 ⟨front, back ++ more, hstands.append more⟩
  · intro o h
    obtain ⟨front, back, hstands⟩ := mem_occurrences_iff.1 h
    exact mem_occurrences_iff.2 ⟨t ++ front, back, hstands.later t⟩

/-- A placeholder in single braces and one without a name, after a character of two bytes. -/
def crowded : Text :=
  "é{{{a}}}{{}}".toList

theorem occurrences_crowded :
    crowded.occurrences = [⟨['a'], 3, 8⟩, ⟨[], 9, 13⟩] := by
  decide +kernel

theorem occurrences_exact_crowded :
    crowded.occurrences = [⟨['a'], 3, 8⟩, ⟨[], 9, 13⟩] ∧
      Spelled crowded ⟨['a'], 3, 8⟩ ∧ crowded.IsBoundary 3 ∧ crowded.IsBoundary 8 ∧
      later crowded.byteLength ⟨['a'], 3, 8⟩ ∈ (crowded ++ crowded).occurrences := by
  have hmem : (⟨['a'], 3, 8⟩ : Occurrence) ∈ crowded.occurrences := by
    rw [occurrences_crowded]
    exact List.mem_cons_self
  obtain ⟨hiff, -, hboundary, -, happend⟩ := occurrences_exact crowded
  have hspelled := (hiff _).1 hmem
  obtain ⟨hstart, hstop⟩ := hboundary _ hspelled
  exact ⟨occurrences_crowded, hspelled, hstart, hstop, (happend crowded).2 _ hmem⟩

end Occurrence

end PromptChain
