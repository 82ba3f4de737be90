import Mathlib.Data.List.Nodup
import PromptChain.Proofs.Expansion

/-! How directives are replaced: from the left, at each place the longest token that starts there, in
one pass. The order of a table counts only between entries that have the same token. -/
namespace PromptChain

namespace Text

theorem length_le_byteLength (t : Text) : t.length ≤ t.byteLength := by
  induction t with
  | nil => exact Nat.le_refl 0
  | cons c t ih =>
    have hc : 0 < c.utf8Size := c.utf8Size_pos
    rw [List.length_cons, byteLength]
    omega

/-- Of two starts of one text, the one that has no more bytes has no more characters. -/
theorem length_le_of_byteLength_le {s s' t : Text} (hs : s <+: t) (hs' : s' <+: t)
    (h : s.byteLength ≤ s'.byteLength) : s.length ≤ s'.length := by
  by_contra hlt
  obtain ⟨more, rfl⟩ : s' <+: s := List.prefix_of_prefix_length_le hs' hs (by omega)
  have hmore := length_le_byteLength more
  rw [byteLength_append] at h
  rw [List.length_append] at hlt
  omega

end Text

namespace Directive

/-- The first entry of a table with its token. -/
def IsFirst (table : List Directive) (d : Directive) : Prop :=
  ∃ front back, table = front ++ d :: back ∧ ∀ e ∈ front, e.token ≠ d.token

/-- The entry of a table that counts at the start of a text: its token is not empty and starts the
text, no longer token of the table does, and no entry before it has the same token. -/
structure Leads (table : List Directive) (t : Text) (d : Directive) : Prop where
  nonempty : d.token ≠ []
  starts : d.token <+: t
  longest : ∀ e ∈ table, e.token <+: t → e.token.length ≤ d.token.length
  first : IsFirst table d

/-- The rule of replacement, on a text and what becomes of it. Where an entry leads, its expansion is
put down and the text goes on after the token. A character at which no token starts is copied. -/
inductive Replaced (table : List Directive) : Text → Text → Prop
  | nil : Replaced table [] []
  | token {d : Directive} {rest u : Text} (lead : Leads table (d.token ++ rest) d)
      (tail : Replaced table rest u) : Replaced table (d.token ++ rest) (d.expansion ++ u)
  | character {c : Char} {t u : Text} (none : ∀ d ∈ table, d.token <+: c :: t → d.token = [])
      (tail : Replaced table t u) : Replaced table (c :: t) (c :: u)

variable {table : List Directive} {t : Text} {d : Directive}

theorem isFirst_iff : IsFirst table d ↔ table.find? (fun e => e.token == d.token) = some d := by
  rw [List.find?_eq_some_iff_append, IsFirst]
  simp

theorem IsFirst.mem (h : IsFirst table d) : d ∈ table := by
  obtain ⟨front, back, rfl, -⟩ := h
  simp

theorem IsFirst.expansionOf_eq (h : IsFirst table d) : expansionOf table d.token = d.expansion := by
  rw [expansionOf, isFirst_iff.1 h]

theorem IsFirst.unique {e : Directive} (hd : IsFirst table d) (he : IsFirst table e)
    (h : d.token = e.token) : d = e := by
  have hfind := isFirst_iff.1 hd
  rw [h, isFirst_iff.1 he] at hfind
  exact (Option.some.inj hfind).symm

theorem exists_isFirst (h : d ∈ table) : ∃ e, IsFirst table e ∧ e.token = d.token := by
  have hsome : (table.find? fun e => e.token == d.token).isSome = true :=
    List.find?_isSome.2 ⟨d, h, beq_self_eq_true d.token⟩
  obtain ⟨e, he⟩ := Option.isSome_iff_exists.1 hsome
  have htoken : e.token = d.token := by simpa using List.find?_some he
  exact ⟨e, isFirst_iff.2 (htoken ▸ he), htoken⟩

/-- Where no token stands twice, every entry is the first with its token. -/
theorem isFirst_of_nodup (hn : (table.map token).Nodup) (h : d ∈ table) : IsFirst table d := by
  obtain ⟨front, back, rfl⟩ := List.append_of_mem h
  refine ⟨front, back, rfl, ?_⟩
  intro e he htoken
  rw [List.map_append, List.map_cons] at hn
  have hdisjoint := List.disjoint_of_nodup_append hn
  exact hdisjoint (List.mem_map_of_mem he) (htoken ▸ List.mem_cons_self)

theorem Leads.unique {e : Directive} (hd : Leads table t d) (he : Leads table t e) : d = e := by
  have hle := he.longest d hd.first.mem hd.starts
  have hge := hd.longest e he.first.mem he.starts
  have hstart : d.token <+: e.token := List.prefix_of_prefix_length_le hd.starts he.starts hle
  exact hd.first.unique he.first (hstart.eq_of_length_le hge)

theorem mem_tokens (h : d ∈ table) : d.token ∈ tokens table :=
  List.mem_mergeSort.2 (List.mem_map_of_mem h)

/-- Tokens are tried in the order of their sizes. -/
theorem pairwise_tokens (table : List Directive) :
    (tokens table).Pairwise fun s t => t.byteLength ≤ s.byteLength := by
  have htrans : ∀ a b c : Text, decide (b.byteLength ≤ a.byteLength) = true →
      decide (c.byteLength ≤ b.byteLength) = true → decide (c.byteLength ≤ a.byteLength) = true := by
    intro a b c hab hbc
    rw [decide_eq_true_eq] at hab hbc ⊢
    omega
  have htotal : ∀ a b : Text, (decide (b.byteLength ≤ a.byteLength) ||
      decide (a.byteLength ≤ b.byteLength)) = true := by
    intro a b
    rw [Bool.or_eq_true, decide_eq_true_eq, decide_eq_true_eq]
    omega
  exact (List.pairwise_mergeSort htrans htotal (table.map token)).imp of_decide_eq_true

theorem leading?_eq_none_iff :
    leading? (tokens table) t = none ↔ ∀ d ∈ table, d.token <+: t → d.token = [] := by
  constructor
  · intro h d hd hstarts
    obtain ⟨rest, rfl⟩ := hstarts
    by_contra hne
    have hnone := after?_of_leading?_eq_none h (mem_tokens hd) hne
    rw [Text.after?_append] at hnone
    cases hnone
  · intro h
    rw [Option.eq_none_iff_forall_ne_some]
    rintro ⟨token, rest⟩ hl
    obtain ⟨hm, hne, ht⟩ := of_leading? hl
    obtain ⟨d, hd, rfl⟩ := exists_of_mem_tokens hm
    exact hne (h d hd ⟨rest, ht.symm⟩)

/-- The token that is tried first of those that start a text is the longest of them. -/
theorem length_le_of_leading? {token rest : Text}
    (h : leading? (tokens table) t = some (token, rest)) {e : Directive} (he : e ∈ table)
    (hstarts : e.token <+: t) : e.token.length ≤ token.length := by
  obtain ⟨-, -, ht⟩ := of_leading? h
  have htoken : token <+: t := ⟨rest, ht.symm⟩
  have hsorted := pairwise_tokens table
  have hmem := mem_tokens he
  obtain ⟨front, m, back, hsplit, hm, hfront⟩ := List.findSome?_eq_some_iff.1 h
  have hfound : m = token := by
    split_ifs at hm
    obtain ⟨_, -, hpair⟩ := Option.map_eq_some_iff.1 hm
    exact congrArg Prod.fst hpair
  subst m
  rw [hsplit, List.mem_append, List.mem_cons] at hmem
  rcases hmem with hmem | hmem | hmem
  · -- A token tried before is empty, since it starts the text and was not taken.
    have hnone := hfront e.token hmem
    obtain ⟨more, rfl⟩ := hstarts
    rw [Text.after?_append] at hnone
    split_ifs at hnone with hempty
    · rw [List.isEmpty_iff.1 hempty]
      exact Nat.zero_le _
    · cases hnone
  · exact Nat.le_of_eq (congrArg List.length hmem)
  · rw [hsplit] at hsorted
    have hbytes := (List.pairwise_cons.1 (List.pairwise_append.1 hsorted).2.1).1 e.token hmem
    exact Text.length_le_of_byteLength_le hstarts htoken hbytes

theorem exists_leads {token rest : Text} (h : leading? (tokens table) t = some (token, rest)) :
    ∃ d, Leads table t d ∧ d.token = token ∧ t = d.token ++ rest := by
  obtain ⟨hm, hne, ht⟩ := of_leading? h
  obtain ⟨e, he, rfl⟩ := exists_of_mem_tokens hm
  obtain ⟨d, hfirst, htoken⟩ := exists_isFirst he
  rw [← htoken] at hne ht
  refine ⟨d, ⟨hne, ⟨rest, ht.symm⟩, ?_, hfirst⟩, htoken, ht⟩
  intro other ho hstarts
  rw [htoken]
  exact length_le_of_leading? h ho hstarts

theorem Leads.leading?_eq {rest : Text} (h : Leads table (d.token ++ rest) d) :
    leading? (tokens table) (d.token ++ rest) = some (d.token, rest) := by
  cases hl : leading? (tokens table) (d.token ++ rest) with
  | none => exact absurd (leading?_eq_none_iff.1 hl d h.first.mem h.starts) h.nonempty
  | some found =>
    obtain ⟨token, more⟩ := found
    obtain ⟨e, he, rfl, ht⟩ := exists_leads hl
    rw [← h.unique he] at ht ⊢
    rw [List.append_cancel_left ht]

theorem replaced_replace (table : List Directive) (t : Text) :
    Replaced table t (replace (tokens table) (expansionOf table) t) := by
  fun_induction replace (tokens table) (expansionOf table) t with
  | case1 t token rest hl ih =>
    obtain ⟨d, hd, rfl, rfl⟩ := exists_leads hl
    rw [hd.first.expansionOf_eq]
    exact .token hd ih
  | case2 => exact .nil
  | case3 c rest hl ih => exact .character (leading?_eq_none_iff.1 hl) ih

theorem Replaced.replace_eq {u : Text} (h : Replaced table t u) :
    replace (tokens table) (expansionOf table) t = u := by
  induction h with
  | nil => exact replace_nil _ _
  | token lead _ ih => rw [replace_of_some lead.leading?_eq, lead.first.expansionOf_eq, ih]
  | character none _ ih => rw [replace_cons_of_none (leading?_eq_none_iff.2 none), ih]

section Reordered

variable {table' : List Directive} (hp : table.Perm table')
  (hn : (table.map Directive.token).Nodup)
include hp hn

theorem Leads.of_perm (h : Leads table t d) : Leads table' t d where
  nonempty := h.nonempty
  starts := h.starts
  longest e he := h.longest e (hp.mem_iff.2 he)
  first := isFirst_of_nodup ((hp.map Directive.token).nodup_iff.1 hn) (hp.mem_iff.1 h.first.mem)

theorem Replaced.of_perm {u : Text} (h : Replaced table t u) : Replaced table' t u := by
  induction h with
  | nil => exact .nil
  | token lead _ ih => exact .token (lead.of_perm hp hn) ih
  | character none _ ih => exact .character (fun d hd => none d (hp.mem_iff.2 hd)) ih

end Reordered

/-- Before blanks are tidied, a source is replaced by the rule: from the left, the longest token that
starts at a place by the expansion of its first entry, in one pass. So each source has one text that
the rule gives, and what is made of the source is that text, tidied. Tables that differ in their order
only therefore expand every source alike, if no token has two entries. -/
theorem replace_leftmost_longest (table : List Directive) :
    (∀ source u, replace (tokens table) (expansionOf table) source = u ↔ Replaced table source u) ∧
    (∀ source u, Replaced table source u → expand table source = tidy u) ∧
      ∀ table', table.Perm table' → (table.map token).Nodup →
        ∀ source, expand table' source = expand table source := by
  refine ⟨fun source u => ⟨?_, Replaced.replace_eq⟩, fun source u h => ?_, ?_⟩
  · rintro rfl
    exact replaced_replace table source
  · rw [expand, h.replace_eq]
  · intro table' hp hn source
    have hreplaced := (replaced_replace table source).of_perm hp hn
    rw [expand, expand, hreplaced.replace_eq]

/-- A token, a longer one that starts with it and whose expansion holds it, and an empty one. -/
def nested : List Directive :=
  [⟨"--é".toList, "short".toList⟩, ⟨"--é-b".toList, "long --é".toList⟩, ⟨[], "never".toList⟩]

theorem replaced_nested : Replaced nested "--é-b--é-".toList "long --éshort-".toList := by
  let short : Directive := ⟨"--é".toList, "short".toList⟩
  let long : Directive := ⟨"--é-b".toList, "long --é".toList⟩
  have hlong : Leads nested (long.token ++ "--é-".toList) long :=
    ⟨by decide, by decide, by decide, [_], [_], rfl, by decide⟩
  have hshort : Leads nested (short.token ++ ['-']) short :=
    ⟨by decide, by decide, by decide, [], [_, _], rfl, by decide⟩
  have hlast : Replaced nested ['-'] ['-'] := .character (by decide) .nil
  exact .token hlong (.token hshort hlast)

theorem replace_leftmost_longest_nested :
    Replaced nested "--é-b--é-".toList "long --éshort-".toList ∧
      replace (tokens nested) (expansionOf nested) "--é-b--é-".toList =
        "long --éshort-".toList ∧
      expand nested "--é-b--é-".toList = tidy "long --éshort-".toList ∧
      nested.Perm nested.reverse ∧ (nested.map token).Nodup ∧
        expand nested.reverse "--é-b--é-".toList = expand nested "--é-b--é-".toList := by
  have hp : nested.Perm nested.reverse := (List.reverse_perm nested).symm
  have hn : (nested.map token).Nodup := by decide
  obtain ⟨hreplace, hexpand, hreordered⟩ := replace_leftmost_longest nested
  exact ⟨replaced_nested, (hreplace _ _).2 replaced_nested, hexpand _ _ replaced_nested, hp, hn,
    hreordered _ hp hn _⟩

end Directive

end PromptChain
