import PromptChain.Proofs.JsonGrammar
import PromptChain.Proofs.Tidying

/-! A JSON text is read from its front, so that what follows a value matters only where the value is
a number, and blanks around a list do not matter. -/
namespace PromptChain.Json

namespace Raw

theorem exists_skip {s more : List Symbol} {c : Symbol} (h : skip s = c :: more) :
    ∃ blanks, blanks.all isBlank = true ∧ s = blanks ++ c :: more ∧
      ∀ more', skip (blanks ++ c :: more') = c :: more' := by
  have hsplit : s.takeWhile isBlank ++ skip s = s := List.takeWhile_append_dropWhile
  have hc : isBlank c = false := by
    have hhead := List.head?_dropWhile_not isBlank s
    rw [show s.dropWhile isBlank = c :: more from h] at hhead
    simpa using hhead
  refine ⟨s.takeWhile isBlank, List.all_takeWhile, by rw [← h, hsplit], ?_⟩
  intro more'
  have hblanks : ∀ b ∈ s.takeWhile isBlank, isBlank b = true := fun b hb =>
    List.mem_takeWhile_imp hb
  rw [skip, List.dropWhile_append_of_pos hblanks, List.dropWhile_cons_of_neg (by simp [hc])]

/-- A front that is read as a value with any fuel that it does not exceed. Only a number looks at
what follows it. -/
def TakesValue (front : List Symbol) (raw : Raw) (next : Option Symbol) : Prop :=
  ∀ fuel rest, front.length ≤ fuel → ((∃ n, raw = .number n) → rest.head? = next) →
    value? fuel (front ++ rest) = some (raw, rest)

def TakesItems (front : List Symbol) (items : List Raw) : Prop :=
  ∀ fuel rest, front.length < fuel → items? fuel (front ++ some ']' :: rest) = some (items, rest)

def TakesMembers (front : List Symbol) (members : List (List StringPart × Raw)) : Prop :=
  ∀ fuel rest, front.length < fuel →
    members? fuel (front ++ some '}' :: rest) = some (members, rest)

theorem takesValue_of_valueAt {blanks inner : List Symbol} {c : Symbol} {raw : Raw}
    {next : Option Symbol} (hskip : ∀ more, skip (blanks ++ c :: more) = c :: more)
    (h : ∀ fuel rest, inner.length ≤ fuel → ((∃ n, raw = .number n) → rest.head? = next) →
      ValueAt fuel (c :: (inner ++ rest)) raw rest) :
    TakesValue (blanks ++ c :: inner) raw next := by
  intro fuel rest hfuel hnext
  cases fuel with
  | zero => simp at hfuel
  | succ fuel =>
    apply value?_of_valueAt
    rw [List.append_assoc, List.cons_append, hskip]
    apply h fuel rest _ hnext
    simp only [List.length_append, List.length_cons] at hfuel
    omega

section Step

variable {fuel : Nat}
  (hvalue : ∀ {s raw rest}, value? fuel s = some (raw, rest) →
    ∃ front, s = front ++ rest ∧ TakesValue front raw rest.head?)
  (hitems : ∀ {s items rest}, items? fuel s = some (items, rest) →
    ∃ front, s = front ++ some ']' :: rest ∧ TakesItems front items)
  (hmembers : ∀ {s members rest}, members? fuel s = some (members, rest) →
    ∃ front, s = front ++ some '}' :: rest ∧ TakesMembers front members)

include hvalue hitems in
theorem items?_step {s rest : List Symbol} {items : List Raw}
    (h : items? (fuel + 1) s = some (items, rest)) :
    ∃ front, s = front ++ some ']' :: rest ∧ TakesItems front items := by
  obtain ⟨item, after, hitem, hend⟩ := items?_eq_some_iff.1 h
  obtain ⟨front, hs, htakes⟩ := hvalue hitem
  rcases hend with ⟨hskip, rfl⟩ | ⟨more, others, hskip, hothers, rfl⟩
  · obtain ⟨blanks, -, rfl, hblanks⟩ := exists_skip hskip
    refine ⟨front ++ blanks, by simp [hs], fun fuel' rest' hfuel => ?_⟩
    cases fuel' with
    | zero => simp at hfuel
    | succ fuel' =>
      rw [List.length_append] at hfuel
      have hfront := htakes fuel' (blanks ++ some ']' :: rest') (by omega)
        fun _ => head?_append_congr blanks rfl
      rw [List.append_assoc]
      exact items?_eq_some_iff.2 ⟨item, _, hfront, Or.inl ⟨hblanks rest', rfl⟩⟩
  · obtain ⟨blanks, -, rfl, hblanks⟩ := exists_skip hskip
    obtain ⟨back, rfl, hback⟩ := hitems hothers
    refine ⟨front ++ (blanks ++ some ',' :: back), by simp [hs], fun fuel' rest' hfuel => ?_⟩
    cases fuel' with
    | zero => simp at hfuel
    | succ fuel' =>
      simp only [List.length_append, List.length_cons] at hfuel
      have hfront := htakes fuel' (blanks ++ some ',' :: (back ++ some ']' :: rest')) (by omega)
        fun _ => head?_append_congr blanks rfl
      rw [List.append_assoc, List.append_assoc, List.cons_append]
      exact items?_eq_some_iff.2 ⟨item, _, hfront,
        Or.inr ⟨_, others, hblanks _, hback fuel' rest' (by omega), rfl⟩⟩

include hvalue hmembers in
theorem members?_step {s rest : List Symbol} {members : List (List StringPart × Raw)}
    (h : members? (fuel + 1) s = some (members, rest)) :
    ∃ front, s = front ++ some '}' :: rest ∧ TakesMembers front members := by
  obtain ⟨start, name, colon, source, value, after, hstart, hname, hcolon, hread, hend⟩ :=
    members?_eq_some_iff.1 h
  obtain ⟨blanks₁, -, rfl, hblanks₁⟩ := exists_skip hstart
  obtain ⟨front₁, rfl, htakes₁⟩ := string?_takes hname
  obtain ⟨blanks₂, -, rfl, hblanks₂⟩ := exists_skip hcolon
  obtain ⟨front₂, rfl, htakes₂⟩ := hvalue hread
  rcases hend with ⟨hskip, rfl⟩ | ⟨more, others, hskip, hothers, rfl⟩
  · obtain ⟨blanks₃, -, rfl, hblanks₃⟩ := exists_skip hskip
    refine ⟨blanks₁ ++ some '"' :: (front₁ ++ (blanks₂ ++ some ':' :: (front₂ ++ blanks₃))),
      by simp, fun fuel' rest' hfuel => ?_⟩
    cases fuel' with
    | zero => simp at hfuel
    | succ fuel' =>
      simp only [List.length_append, List.length_cons] at hfuel
      have hfront := htakes₂ fuel' (blanks₃ ++ some '}' :: rest') (by omega)
        fun _ => head?_append_congr blanks₃ rfl
      simp only [List.append_assoc, List.cons_append]
      exact members?_eq_some_iff.2 ⟨_, name, _, _, value, _, hblanks₁ _, htakes₁ _, hblanks₂ _,
        hfront, Or.inl ⟨hblanks₃ rest', rfl⟩⟩
  · obtain ⟨blanks₃, -, rfl, hblanks₃⟩ := exists_skip hskip
    obtain ⟨back, rfl, hback⟩ := hmembers hothers
    refine ⟨blanks₁ ++ some '"' :: (front₁ ++ (blanks₂ ++ some ':' ::
      (front₂ ++ (blanks₃ ++ some ',' :: back)))), by simp, fun fuel' rest' hfuel => ?_⟩
    cases fuel' with
    | zero => simp at hfuel
    | succ fuel' =>
      simp only [List.length_append, List.length_cons] at hfuel
      have hfront := htakes₂ fuel' (blanks₃ ++ some ',' :: (back ++ some '}' :: rest')) (by omega)
        fun _ => head?_append_congr blanks₃ rfl
      simp only [List.append_assoc, List.cons_append]
      exact members?_eq_some_iff.2 ⟨_, name, _, _, value, _, hblanks₁ _, htakes₁ _, hblanks₂ _,
        hfront, Or.inr ⟨_, others, hblanks₃ _, hback fuel' rest' (by omega), rfl⟩⟩

/-- What is read between a mark and its closing mark is read the same there, whatever follows, and
still does not start with the closing mark. -/
theorem exists_enclosed {closing : Symbol} {more front rest : List Symbol}
    (hne : (skip more).head? ≠ some closing) (hmore : skip more = front ++ closing :: rest) :
    ∃ inner, more = inner ++ closing :: rest ∧ front.length ≤ inner.length ∧
      ∀ rest', skip (inner ++ closing :: rest') = front ++ closing :: rest' ∧
        (skip (inner ++ closing :: rest')).head? ≠ some closing := by
  cases front with
  | nil =>
    rw [hmore] at hne
    exact (hne rfl).elim
  | cons c front =>
    obtain ⟨blanks, -, hsource, hblanks⟩ := exists_skip hmore
    refine ⟨blanks ++ c :: front, by simp [hsource], by simp, fun rest' => ?_⟩
    have hskip := hblanks (front ++ closing :: rest')
    rw [hmore] at hne
    rw [List.append_assoc, List.cons_append, hskip]
    exact ⟨rfl, hne⟩

include hitems in
/-- An array ends at its closing bracket, whatever follows. -/
theorem array_step {more rest : List Symbol} {items : List Raw}
    (h : ValueAt fuel (some '[' :: more) (.array items) rest) :
    ∃ inner, more = inner ++ some ']' :: rest ∧ ∀ fuel' rest', inner.length < fuel' →
      ValueAt fuel' (some '[' :: (inner ++ some ']' :: rest')) (.array items) rest' := by
  cases h with
  | emptyArray h =>
    obtain ⟨blanks, -, rfl, hblanks⟩ := exists_skip h
    exact ⟨blanks, rfl, fun fuel' rest' _ => .emptyArray (hblanks rest')⟩
  | array hne h =>
    obtain ⟨front, hmore, htakes⟩ := hitems h
    obtain ⟨inner, hinner, hlength, hskip⟩ := exists_enclosed hne hmore
    refine ⟨inner, hinner, fun fuel' rest' hfuel => .array (hskip rest').2 ?_⟩
    rw [(hskip rest').1]
    exact htakes fuel' rest' (by omega)

include hmembers in
/-- An object ends at its closing brace, whatever follows. -/
theorem object_step {more rest : List Symbol} {members : List (List StringPart × Raw)}
    (h : ValueAt fuel (some '{' :: more) (.object members) rest) :
    ∃ inner, more = inner ++ some '}' :: rest ∧ ∀ fuel' rest', inner.length < fuel' →
      ValueAt fuel' (some '{' :: (inner ++ some '}' :: rest')) (.object members) rest' := by
  cases h with
  | emptyObject h =>
    obtain ⟨blanks, -, rfl, hblanks⟩ := exists_skip h
    exact ⟨blanks, rfl, fun fuel' rest' _ => .emptyObject (hblanks rest')⟩
  | object hne h =>
    obtain ⟨front, hmore, htakes⟩ := hmembers h
    obtain ⟨inner, hinner, hlength, hskip⟩ := exists_enclosed hne hmore
    refine ⟨inner, hinner, fun fuel' rest' hfuel => .object (hskip rest').2 ?_⟩
    rw [(hskip rest').1]
    exact htakes fuel' rest' (by omega)

theorem closed_step {opening closing : Symbol} {more rest : List Symbol} {raw : Raw}
    (h : ∃ inner, more = inner ++ closing :: rest ∧ ∀ fuel' rest', inner.length < fuel' →
      ValueAt fuel' (opening :: (inner ++ closing :: rest')) raw rest') :
    ∃ c inner, opening :: more = c :: (inner ++ rest) ∧ ∀ fuel' rest', inner.length ≤ fuel' →
      ((∃ n, raw = .number n) → rest'.head? = rest.head?) →
        ValueAt fuel' (c :: (inner ++ rest')) raw rest' := by
  obtain ⟨inner, rfl, htakes⟩ := h
  refine ⟨opening, inner ++ [closing], by simp, fun fuel' rest' hfuel _ => ?_⟩
  rw [List.length_append, List.length_singleton] at hfuel
  rw [List.append_assoc]
  exact htakes fuel' rest' (by omega)

include hitems hmembers in
/-- A value keeps its end when what follows it changes, unless it is a number that goes on. -/
theorem valueAt_step {source rest : List Symbol} {raw : Raw} (h : ValueAt fuel source raw rest) :
    ∃ c inner, source = c :: (inner ++ rest) ∧ ∀ fuel' rest', inner.length ≤ fuel' →
      ((∃ n, raw = .number n) → rest'.head? = rest.head?) →
        ValueAt fuel' (c :: (inner ++ rest')) raw rest' := by
  cases h with
  | string h =>
    obtain ⟨inner, rfl, htakes⟩ := string?_takes h
    exact ⟨_, inner, rfl, fun _ rest' _ _ => .string (htakes rest')⟩
  | null h =>
    rw [word?_eq h]
    exact ⟨_, _, rfl, fun _ rest' _ _ => .null (word?_append _ rest')⟩
  | true h =>
    rw [word?_eq h]
    exact ⟨_, _, rfl, fun _ rest' _ _ => .true (word?_append _ rest')⟩
  | false h =>
    rw [word?_eq h]
    exact ⟨_, _, rfl, fun _ rest' _ _ => .false (word?_append _ rest')⟩
  | negative h =>
    obtain ⟨d, inner, -, rfl, htakes⟩ := unsigned?_takes h
    exact ⟨_, some d :: inner, rfl, fun _ rest' _ hnext => .negative (htakes rest' (hnext ⟨_, rfl⟩))⟩
  | positive hd h =>
    obtain ⟨d, inner, -, hsource, htakes⟩ := unsigned?_takes h
    cases hsource
    exact ⟨_, inner, rfl, fun _ rest' _ hnext => .positive hd (htakes rest' (hnext ⟨_, rfl⟩))⟩
  | emptyArray h => exact closed_step (array_step hitems (.emptyArray h))
  | array hne h => exact closed_step (array_step hitems (.array hne h))
  | emptyObject h => exact closed_step (object_step hmembers (.emptyObject h))
  | object hne h => exact closed_step (object_step hmembers (.object hne h))

end Step

/-- Each reader takes a front of its source, and takes the same front with any fuel that suffices. -/
theorem takes (fuel : Nat) :
    (∀ {s raw rest}, value? fuel s = some (raw, rest) →
      ∃ front, s = front ++ rest ∧ TakesValue front raw rest.head?) ∧
    (∀ {s items rest}, items? fuel s = some (items, rest) →
      ∃ front, s = front ++ some ']' :: rest ∧ TakesItems front items) ∧
    ∀ {s members rest}, members? fuel s = some (members, rest) →
      ∃ front, s = front ++ some '}' :: rest ∧ TakesMembers front members := by
  induction fuel with
  | zero =>
    refine ⟨fun h => ?_, fun h => ?_, fun h => ?_⟩
    · rw [value?] at h
      cases h
    · rw [items?] at h
      cases h
    · rw [members?] at h
      cases h
  | succ fuel ih =>
    obtain ⟨hvalue, hitems, hmembers⟩ := ih
    refine ⟨fun h => ?_, items?_step hvalue hitems, members?_step hvalue hmembers⟩
    obtain ⟨c, inner, hsource, htakes⟩ := valueAt_step hitems hmembers (valueAt_of_value? h)
    obtain ⟨blanks, -, hs, hblanks⟩ := exists_skip hsource
    exact ⟨blanks ++ c :: inner, by simp [hs], takesValue_of_valueAt hblanks htakes⟩

/-- What an array is read from: its brackets, and between them what is read the same wherever the
array stands. -/
theorem exists_brackets {fuel : Nat} {s rest : List Symbol} {items : List Raw}
    (h : value? fuel s = some (.array items, rest)) :
    ∃ inner, skip s = some '[' :: (inner ++ some ']' :: rest) ∧ ∀ fuel' rest',
      inner.length + 1 < fuel' →
        value? fuel' (some '[' :: (inner ++ some ']' :: rest')) = some (.array items, rest') := by
  cases fuel with
  | zero =>
    rw [value?] at h
    cases h
  | succ fuel =>
    have hat := valueAt_of_value? h
    generalize skip s = source at hat ⊢
    obtain ⟨more, rfl⟩ : ∃ more, source = some '[' :: more := by
      cases hat with
      | emptyArray => exact ⟨_, rfl⟩
      | array => exact ⟨_, rfl⟩
    obtain ⟨inner, rfl, htakes⟩ := array_step (takes fuel).2.1 hat
    refine ⟨inner, rfl, fun fuel' rest' hfuel => ?_⟩
    cases fuel' with
    | zero => omega
    | succ fuel' => exact value?_of_valueAt (htakes fuel' rest' (by omega))

theorem isBlank_of_some {c : Char} (h : isBlank (some c) = true) : Text.isBlank c = true := by
  simp only [isBlank, Bool.or_eq_true, beq_iff_eq, Option.some.injEq] at h
  rcases h with ((rfl | rfl) | rfl) | rfl <;> rfl

theorem allBlank_of_map {t : Text} (h : ∀ s ∈ t.map some, isBlank s = true) : t.allBlank = true :=
  List.all_eq_true.2 fun c hc => isBlank_of_some (h (some c) (List.mem_map_of_mem hc))

/-- A text that is read as a list has brackets at its ends, blanks apart. -/
theorem exists_trim {t : Text} {items : List Raw} (h : read? (t.map some) = some (.array items)) :
    ∃ u : Text, t.trim = '[' :: (u ++ [']']) ∧ ∀ fuel, u.length + 1 < fuel →
      value? fuel (t.trim.map some) = some (.array items, []) := by
  obtain ⟨⟨raw, rest⟩, hvalue, h⟩ := Option.bind_eq_some_iff.1 h
  dsimp only at h
  split_ifs at h with hend
  cases h
  obtain ⟨inner, hsource, htakes⟩ := exists_brackets hvalue
  obtain ⟨blanks, hblanks, hs, -⟩ := exists_skip hsource
  obtain ⟨front, list, rfl, rfl, hlist⟩ := List.map_eq_append_iff.1 hs
  obtain ⟨c, more, rfl, hc, hmore⟩ := List.map_eq_cons_iff.1 hlist
  obtain ⟨u, last, rfl, rfl, hlast⟩ := List.map_eq_append_iff.1 hmore
  obtain ⟨d, back, rfl, hd, rfl⟩ := List.map_eq_cons_iff.1 hlast
  cases hc
  cases hd
  have hfront : Text.allBlank front = true := allBlank_of_map (List.all_eq_true.1 hblanks)
  have hrest : Text.allBlank back = true := by
    apply allBlank_of_map
    exact List.dropWhile_eq_nil_iff.1 (List.isEmpty_iff.1 hend)
  have htrim : Text.trim (front ++ '[' :: (u ++ ']' :: back)) = '[' :: (u ++ [']']) := by
    rw [Text.trim, Text.trimStart_append_of_allBlank hfront,
      Text.trimStart_cons_of_notBlank (by decide), ← List.cons_append,
      Text.trimEnd_append_cons (by decide), Text.trimEnd_eq_nil_iff.2 hrest]
    rfl
  refine ⟨u, htrim, fun fuel hfuel => ?_⟩
  rw [htrim]
  have := htakes fuel [] (by simpa using hfuel)
  simpa using this

theorem exists_items_of_meaning? {raw : Raw} {items : List Json}
    (h : raw.meaning? = some (.array items)) : ∃ raws, raw = .array raws := by
  cases raw with
  | array raws => exact ⟨raws, rfl⟩
  | null => cases h
  | bool b => cases h
  | number n =>
    obtain ⟨_, -, h⟩ := Option.map_eq_some_iff.1 h
    cases h
  | string parts =>
    obtain ⟨_, -, h⟩ := Option.map_eq_some_iff.1 h
    cases h
  | object members =>
    obtain ⟨_, -, h⟩ := Option.map_eq_some_iff.1 h
    cases h

end Raw

theorem exists_items_of_canonical {json : Json} {items : List Json}
    (h : json.canonical = .array items) : ∃ written, json = .array written := by
  cases json with
  | array written => exact ⟨written, rfl⟩
  | _ => cases h

/-- Blanks around a list do not matter. -/
theorem read?_trim {t : Text} {items : List Json} (h : read? t = some (.array items)) :
    read? t.trim = some (.array items) := by
  obtain ⟨json, hjson, hcanonical⟩ := Option.map_eq_some_iff.1 h
  obtain ⟨written, rfl⟩ := exists_items_of_canonical hcanonical
  obtain ⟨raw, hraw, hmeaning⟩ := Option.bind_eq_some_iff.1 hjson
  have hread : Raw.read? (t.trim.map some) = some raw := by
    obtain ⟨raws, rfl⟩ : ∃ raws, raw = .array raws := by
      split_ifs at hmeaning
      exact Raw.exists_items_of_meaning? hmeaning
    obtain ⟨u, htrim, htakes⟩ := Raw.exists_trim hraw
    have hfuel : u.length + 1 < 2 * (t.trim.map some).length + 2 := by
      rw [htrim]
      simp
      omega
    rw [Raw.read?, htakes _ hfuel]
    rfl
  rw [read?, readWritten?, hread]
  change Option.map canonical (if raw.depth ≤ depthLimit then raw.meaning? else none) = _
  rw [hmeaning, Option.map_some, hcanonical]

end PromptChain.Json
