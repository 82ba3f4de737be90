import PromptChain.Proofs.Tidying

/-! Splitting undoes joining: a script is its steps with separators between them. -/
namespace PromptChain

namespace Text

/-- A text with no blank at either end. -/
structure Bare (t : Text) : Prop where
  first : ∀ c ∈ t.head?, isBlank c = false
  last : ∀ c ∈ t.getLast?, isBlank c = false

theorem Bare.trim_eq {t : Text} (h : t.Bare) : t.trim = t := by
  have hstart : t.trimStart = t := by
    cases t with
    | nil => rfl
    | cons c t =>
      have hc : isBlank c = false := h.first c rfl
      exact trimStart_cons_of_notBlank hc t
  have hend : t.trimEnd = t := by
    rcases List.eq_nil_or_concat t with hnil | ⟨u, c, hu⟩
    · rw [hnil]
      rfl
    · rw [List.concat_eq_append] at hu
      have hc : isBlank c = false := h.last c (by rw [hu, List.getLast?_concat, Option.mem_some_iff])
      rw [hu, trimEnd_append_cons hc]
      rfl
  rw [trim, hstart, hend]

theorem bare_trim (t : Text) : t.trim.Bare := by
  constructor
  · intro c hc
    obtain ⟨u, hu⟩ := List.head?_eq_some_iff.1 hc
    by_contra hblank
    rw [Bool.not_eq_false] at hblank
    -- Trimming again would take the blank away.
    have hstart : t.trim.trimStart = t.trim := by
      rw [trim, trimStart_trimEnd, trimStart, trimStart, List.dropWhile_idempotent]
    have hdrop : (c :: u).dropWhile isBlank = c :: u := by
      rw [← hu]
      exact hstart
    have hlength := (List.dropWhile_suffix isBlank (l := u)).length_le
    rw [List.dropWhile_cons_of_pos hblank] at hdrop
    rw [hdrop, List.length_cons] at hlength
    omega
  · intro c hc
    obtain ⟨u, hu⟩ := List.getLast?_eq_some_iff.1 hc
    have hend : trimEnd t.trim = t.trim := trimEnd_trimEnd _
    rw [hu] at hend
    exact isBlank_eq_false_of_trimEnd hend

theorem bare_iff_trim_eq {t : Text} : t.Bare ↔ t.trim = t := by
  constructor
  · exact Bare.trim_eq
  · intro h
    rw [← h]
    exact bare_trim t

def places (marker t : Text) : List Nat :=
  (List.range t.length).filter fun i => marker.isPrefixOf (t.drop i)

theorem length_places_cons (marker : Text) (c : Char) (t : Text) :
    (places marker (c :: t)).length =
      (if marker.isPrefixOf (c :: t) then 1 else 0) + (places marker t).length := by
  unfold places
  rw [List.length_cons, List.range_succ_eq_map, List.filter_cons, List.filter_map, List.drop_zero]
  have hrest : ((fun i => marker.isPrefixOf ((c :: t).drop i)) ∘ Nat.succ) =
      fun i => marker.isPrefixOf (t.drop i) := by
    funext i
    rfl
  rw [hrest]
  split_ifs
  · rw [List.length_cons, List.length_map, Nat.add_comm]
  · rw [List.length_map, Nat.zero_add]

end Text

namespace Step

def later (offset : Nat) (s : Step) : Step :=
  { s with index := offset + s.index }

theorem length_push {c : Char} {l : List Text} (h : l ≠ []) : (Text.push c l).length = l.length := by
  cases l with
  | nil => exact absurd rfl h
  | cons piece l => rfl

theorem length_places_of_not_isPrefixOf {c : Char} {t : Text}
    (h : separator.isPrefixOf (c :: t) = false) :
    (Text.places separator (c :: t)).length = (Text.places separator t).length := by
  rw [Text.length_places_cons, h, if_neg Bool.false_ne_true, Nat.zero_add]

/-- No separator starts inside of another one. -/
theorem length_places_separator_append (t : Text) :
    (Text.places separator (separator ++ t)).length = (Text.places separator t).length + 1 := by
  have hstart : separator.isPrefixOf (separator ++ t) = true :=
    List.isPrefixOf_iff_prefix.2 (List.prefix_append separator t)
  have hinside : ∀ u, separator.isPrefixOf ('>' :: u) = false := fun _ => rfl
  calc (Text.places separator (separator ++ t)).length
      = 1 + (Text.places separator ('>' :: '>' :: '>' :: '>' :: t)).length := by
        rw [show separator ++ t = '-' :: '>' :: '>' :: '>' :: '>' :: t from rfl] at hstart ⊢
        rw [Text.length_places_cons, hstart, if_pos rfl]
    _ = 1 + (Text.places separator t).length := by
        rw [length_places_of_not_isPrefixOf (hinside _), length_places_of_not_isPrefixOf (hinside _),
          length_places_of_not_isPrefixOf (hinside _), length_places_of_not_isPrefixOf (hinside _)]
    _ = (Text.places separator t).length + 1 := Nat.add_comm _ _

/-- There is one piece more than there are separators. -/
theorem length_cut (t : Text) : (cut t).length = (Text.places separator t).length + 1 := by
  fun_induction cut t with
  | case1 t rest h ih =>
    rw [Text.after?_eq_some_iff.1 h, length_places_separator_append, List.length_cons, ih]
  | case2 => rfl
  | case3 c rest h ih =>
    have hstart : separator.isPrefixOf (c :: rest) = false := by
      rw [Bool.eq_false_iff]
      intro hprefix
      obtain ⟨more, hmore⟩ := List.isPrefixOf_iff_prefix.1 hprefix
      rw [← hmore, Text.after?_append] at h
      cases h
    rw [length_push (cut_ne_nil rest), ih, length_places_of_not_isPrefixOf hstart]

/-- No separator is left in a piece. -/
theorem not_infix_of_mem_cut {t piece : Text} (h : piece ∈ cut t) : ¬separator <:+: piece := by
  induction t using separator_induction with
  | single t ht =>
    rw [cut_eq_singleton ht, List.mem_singleton] at h
    rw [h]
    exact Text.has_eq_false_iff.1 ht
  | more a b ha ih =>
    rw [cut_append_separator ha, List.mem_cons] at h
    rcases h with h | h
    · rw [h]
      exact Text.has_eq_false_iff.1 ha
    · exact ih h

/-- Texts without separators are the pieces of the script that joins them. -/
theorem cut_intercalate {texts : List Text} (hne : texts ≠ [])
    (h : ∀ t ∈ texts, ¬separator <:+: t) : cut (separator.intercalate texts) = texts := by
  induction texts with
  | nil => exact absurd rfl hne
  | cons t texts ih =>
    have ht : separator.has t = false := Text.has_eq_false_iff.2 (h t List.mem_cons_self)
    cases texts with
    | nil => rw [List.intercalate_singleton, cut_eq_singleton ht]
    | cons next texts =>
      have hrest := ih (List.cons_ne_nil _ _) fun u hu => h u (List.mem_cons_of_mem t hu)
      rw [List.intercalate_cons_cons, List.append_assoc, cut_append_separator ht, hrest]

theorem split_eq_mapIdx (t : Text) : split t = (texts t).mapIdx fun i text => ⟨i + 1, text⟩ := by
  rw [split_eq, List.mapIdx_eq_zipIdx_map, List.zipIdx_succ, List.map_map]
  rfl

theorem length_split (t : Text) : (split t).length = (cut t).length := by
  rw [split_eq_mapIdx, List.length_mapIdx, texts, List.length_map]

theorem map_index_split (t : Text) : (split t).map index = List.range' 1 (split t).length := by
  rw [length_split, split, List.map_map]
  change List.map Prod.snd ((cut t).zipIdx 1) = _
  rw [List.zipIdx_map_snd]

theorem mem_texts_of_mem_split {t : Text} {s : Step} (h : s ∈ split t) : s.text ∈ texts t := by
  rw [split_eq] at h
  obtain ⟨⟨text, i⟩, hm, rfl⟩ := List.mem_map.1 h
  exact List.fst_mem_of_mem_zipIdx hm

theorem split_append (a b : Text) :
    split (a ++ separator ++ b) = split a ++ (split b).map (later (split a).length) := by
  have hlength : (split a).length = (texts a).length := by
    rw [split_eq_mapIdx, List.length_mapIdx]
  have hlater : (split b).map (later (texts a).length) =
      (texts b).mapIdx fun i text => ⟨i + (texts a).length + 1, text⟩ := by
    rw [split_eq_mapIdx, List.mapIdx_eq_zipIdx_map, List.map_map, List.mapIdx_eq_zipIdx_map]
    apply List.map_congr_left
    intro ⟨text, i⟩ _
    simp only [Function.comp_apply, later, mk.injEq, and_true]
    omega
  rw [hlength, hlater, List.append_assoc, split_eq_mapIdx, texts_append, List.mapIdx_append,
    ← split_eq_mapIdx]

/-- A script and its steps determine each other. Joined texts are split into themselves; a script has
a step more than it has separators, and its steps are numbered from one, bare, and without separators;
a separator divides a script into two scripts. -/
theorem split_undoes_join :
    (∀ texts : List Text, texts ≠ [] → (∀ t ∈ texts, t.Bare ∧ ¬separator <:+: t) →
      split (separator.intercalate texts) = texts.mapIdx fun i text => ⟨i + 1, text⟩) ∧
    (∀ script : Text,
      (split script).length = (Text.places separator script).length + 1 ∧
      (split script).map index = List.range' 1 (split script).length ∧
      ∀ s ∈ split script, s.text.Bare ∧ ¬separator <:+: s.text) ∧
    ∀ a b : Text,
      split (a ++ separator ++ b) = split a ++ (split b).map (later (split a).length) := by
  refine ⟨?_, ?_, split_append⟩
  · intro joined hne h
    have htrim : (joined.map Text.trim) = joined := by
      have hself : ∀ t ∈ joined, t.trim = id t := fun t ht => (h t ht).1.trim_eq
      rw [List.map_congr_left hself, List.map_id]
    have htexts : texts (separator.intercalate joined) = joined := by
      rw [texts, cut_intercalate hne fun t ht => (h t ht).2, htrim]
    rw [split_eq_mapIdx, htexts]
  · intro script
    have hlength : (split script).length = (Text.places separator script).length + 1 :=
      (length_split script).trans (length_cut script)
    refine ⟨hlength, map_index_split script, ?_⟩
    intro s hs
    obtain ⟨piece, hpiece, htext⟩ := List.mem_map.1 (mem_texts_of_mem_split hs)
    rw [← htext]
    -- A separator in the trimmed piece would be one in the piece.
    have hclear : ¬separator <:+: piece.trim := fun hin =>
      not_infix_of_mem_cut hpiece (hin.trans (Text.isInfix_trim piece))
    exact ⟨Text.bare_trim piece, hclear⟩

/-- Texts that start and end with parts of a separator. -/
def brokenSeparators : List Text :=
  ["-".toList, "->>>".toList, "> a".toList]

theorem split_undoes_join_brokenSeparators :
    (∀ t ∈ brokenSeparators, t.Bare ∧ ¬separator <:+: t) ∧
      separator.intercalate brokenSeparators = "-->>>>->>>->>>>> a".toList ∧
      split "-->>>>->>>->>>>> a".toList =
        [⟨1, "-".toList⟩, ⟨2, "->>>".toList⟩, ⟨3, "> a".toList⟩] := by
  have htexts : ∀ t ∈ brokenSeparators, t.Bare ∧ ¬separator <:+: t := by
    have hall : brokenSeparators.all (fun t => t.trim == t && !separator.has t) = true := by decide
    intro t ht
    have h := List.all_eq_true.1 hall t ht
    rw [Bool.and_eq_true, beq_iff_eq, Bool.not_eq_true'] at h
    exact ⟨Text.bare_iff_trim_eq.2 h.1, Text.has_eq_false_iff.1 h.2⟩
  have hjoined : separator.intercalate brokenSeparators = "-->>>>->>>->>>>> a".toList := by decide
  refine ⟨htexts, hjoined, ?_⟩
  rw [← hjoined, split_undoes_join.1 brokenSeparators (List.cons_ne_nil _ _) htexts]
  rfl

end Step

end PromptChain
