import Mathlib.Data.List.Chain
import PromptChain.Proofs.Scanning

/-! Seams of filled texts: where the characters of a text and those of its values come together, and
when they do not spell a placeholder there. -/
namespace PromptChain

namespace Piece

/-- What stands for a piece in a row once the names with a value are filled. -/
def settle (value : Text → Option Text) : Piece → List Piece
  | character c => [character c]
  | placeholder name =>
    match value name with
    | some text => text.map character
    | none => [placeholder name]

def fillRow (value : Text → Option Text) (ps : List Piece) : List Piece :=
  ps.flatMap (settle value)

section

variable {value : Text → Option Text} {ps : List Piece}

@[simp] theorem fillRow_nil : fillRow value [] = [] := rfl

@[simp] theorem fillRow_character (c : Char) :
    fillRow value (character c :: ps) = character c :: fillRow value ps := rfl

theorem fillRow_placeholder_some {name text : Text} (h : value name = some text) :
    fillRow value (placeholder name :: ps) = text.map character ++ fillRow value ps := by
  simp [fillRow, settle, h]

theorem fillRow_placeholder_none {name : Text} (h : value name = none) :
    fillRow value (placeholder name :: ps) = placeholder name :: fillRow value ps := by
  simp [fillRow, settle, h]

@[simp] theorem fillRow_characters (value : Text → Option Text) (text : Text) :
    fillRow value (text.map character) = text.map character := by
  induction text with
  | nil => rfl
  | cons c text ih => rw [List.map_cons, fillRow_character, ih]

/-- Filling does not break up a hidden placeholder. -/
theorem Hides.fillRow (value : Text → Option Text) (h : Hides ps) : Hides (fillRow value ps) := by
  obtain ⟨name, hname, hrun⟩ := h
  have hfilled := hrun.flatMap (settle value)
  refine ⟨name, hname, ?_⟩
  rw [← fillRow_characters value]
  exact hfilled

/-- The names that are left in a row are those without a value. -/
theorem names_fillRow (value : Text → Option Text) (ps : List Piece) :
    names (fillRow value ps) = (names ps).filter fun name => (value name).isNone := by
  induction ps with
  | nil => rfl
  | cons piece ps ih =>
    cases piece with
    | character c => rw [fillRow_character, names_character, names_character, ih]
    | placeholder name =>
      cases hv : value name with
      | some text =>
        rw [fillRow_placeholder_some hv, names_append, names_characters, ih]
        simp [hv]
      | none =>
        rw [fillRow_placeholder_none hv, names_placeholder, names_placeholder, ih]
        simp [hv]

/-- Filling a row twice is filling it once, with the first values before the second ones. -/
theorem fillRow_fillRow (first second : Text → Option Text) (ps : List Piece) :
    fillRow second (fillRow first ps) = fillRow (fun name => (first name).or (second name)) ps := by
  induction ps with
  | nil => rfl
  | cons piece ps ih =>
    cases piece with
    | character c => rw [fillRow_character, fillRow_character, fillRow_character, ih]
    | placeholder name =>
      cases hv : first name with
      | some text =>
        have hboth : (first name).or (second name) = some text := by rw [hv]; rfl
        rw [fillRow_placeholder_some hv, fillRow_placeholder_some hboth, ← ih]
        simp only [fillRow, List.flatMap_append]
        exact congrArg (· ++ _) (fillRow_characters second text)
      | none =>
        rw [fillRow_placeholder_none hv]
        cases hs : second name with
        | some text =>
          have hboth : (first name).or (second name) = some text := by rw [hv, hs]; rfl
          rw [fillRow_placeholder_some hs, fillRow_placeholder_some hboth, ih]
        | none =>
          have hboth : (first name).or (second name) = none := by rw [hv, hs]; rfl
          rw [fillRow_placeholder_none hs, fillRow_placeholder_none hboth, ih]

def textWith (text : Text → Text) (ps : List Piece) : Text :=
  ps.flatMap fun
    | character c => [c]
    | placeholder name => text name

/-- Where every name has a value, filling leaves nothing but characters. -/
theorem fillRow_eq_characters (h : ∀ name ∈ names ps, (value name).isSome = true) :
    fillRow value ps = (textWith (fun name => (value name).getD []) ps).map character := by
  induction ps with
  | nil => rfl
  | cons piece ps ih =>
    cases piece with
    | character c =>
      rw [fillRow_character, ih h]
      rfl
    | placeholder name =>
      obtain ⟨text, ht⟩ := Option.isSome_iff_exists.1 (h name (by simp))
      rw [fillRow_placeholder_some ht, ih fun other hm => h other (by simp [hm])]
      simp [textWith, ht]

end

/-- No placeholder starts at the first of two pieces and goes on into the second: an opening brace
is not followed by another one. -/
def Apart (a b : Piece) : Prop :=
  a = character '{' → b.source.head? ≠ some '{'

theorem apart_placeholder (name : Text) (b : Piece) : Apart (placeholder name) b := by
  intro h
  cases h

theorem not_hides_of_isChain {ps : List Piece} (h : ps.IsChain Apart) : ¬Hides ps := by
  rintro ⟨name, -, hrun⟩
  have hchain := h.infix hrun
  rw [source_placeholder, List.map_cons, List.map_cons, List.isChain_cons_cons] at hchain
  exact hchain.1 rfl rfl

end Piece

/-- A text that can stand before anything: it has no two opening braces in a row and none at its
end. -/
structure Text.Tame (t : Text) : Prop where
  single : ¬['{', '{'] <:+: t
  last : t.getLast? ≠ some '{'

theorem Text.tame_of_notMem {t : Text} (h : '{' ∉ t) : t.Tame where
  single hrun := h (hrun.subset (by simp))
  last hlast := h (List.mem_of_getLast? hlast)

namespace Piece

theorem isChain_characters {t : Text} (h : ¬['{', '{'] <:+: t) :
    (t.map character).IsChain Apart := by
  rw [List.isChain_map]
  induction t with
  | nil => exact .nil
  | cons c t ih =>
    have hrest : ¬['{', '{'] <:+: t := fun hrun => h (List.infix_cons hrun)
    refine List.isChain_cons.2 ⟨?_, ih hrest⟩
    intro d hd hc hopen
    obtain ⟨u, rfl⟩ := List.head?_eq_some_iff.1 hd
    cases hc
    cases hopen
    exact h ⟨[], u, rfl⟩

section

variable {value : Text → Option Text} {ps : List Piece}

/-- What may not follow an opening brace in a row may not follow it in the filled row. -/
theorem apart_head_fillRow {a : Piece} (h : ∀ b ∈ ps.head?, Apart a b) :
    ∀ b ∈ (fillRow value ps).head?, Apart a b := by
  intro b hb hopen
  cases ps with
  | nil => cases hb
  | cons piece rest =>
    cases piece with
    | character c =>
      cases hb
      exact h (character c) rfl hopen
    | placeholder name => exact absurd rfl (h (placeholder name) rfl hopen)

/-- Filling in tame values brings no two opening braces together. -/
theorem isChain_fillRow (h : ps.IsChain Apart)
    (hv : ∀ name ∈ names ps, ∀ text, value name = some text → text.Tame) :
    (fillRow value ps).IsChain Apart := by
  induction ps with
  | nil => exact .nil
  | cons piece rest ih =>
    obtain ⟨hhead, hrest⟩ := List.isChain_cons.1 h
    cases piece with
    | character c =>
      have hfilled := ih hrest hv
      exact List.isChain_cons.2 ⟨apart_head_fillRow hhead, hfilled⟩
    | placeholder name =>
      have hfilled := ih hrest fun other hm => hv other (by simp [hm])
      cases hn : value name with
      | none =>
        rw [fillRow_placeholder_none hn]
        exact List.isChain_cons.2 ⟨fun b _ => apart_placeholder name b, hfilled⟩
      | some text =>
        have htame := hv name (by simp) text hn
        rw [fillRow_placeholder_some hn, List.isChain_append]
        refine ⟨isChain_characters htame.single, hfilled, ?_⟩
        intro a ha b _ hopen
        rw [List.getLast?_map] at ha
        obtain ⟨c, hc, rfl⟩ := Option.map_eq_some_iff.1 ha
        cases hopen
        exact absurd hc htame.last

end

def segments : List Piece → List Text
  | [] => [[]]
  | character c :: ps => Text.push c (segments ps)
  | placeholder _ :: ps => [] :: segments ps

theorem segments_ne_nil (ps : List Piece) : segments ps ≠ [] := by
  cases ps with
  | nil => simp [segments]
  | cons piece ps =>
    cases piece with
    | placeholder name => simp [segments]
    | character c =>
      rw [segments]
      cases segments ps <;> simp [Text.push]

/-- Opening braces outside of the placeholders of a row stand alone: the texts between placeholders
have no two of them in a row, and none directly before a placeholder. -/
structure Separated (ps : List Piece) : Prop where
  single : ∀ segment ∈ segments ps, ¬['{', '{'] <:+: segment
  before : ∀ segment ∈ (segments ps).dropLast, segment.getLast? ≠ some '{'

namespace Separated

variable {c : Char} {ps : List Piece}

theorem of_placeholder {name : Text} (h : Separated (placeholder name :: ps)) : Separated ps where
  single segment hm := h.single segment (List.mem_cons_of_mem [] hm)
  before segment hm := by
    apply h.before segment
    rw [segments, List.dropLast_cons_of_ne_nil (segments_ne_nil ps)]
    exact List.mem_cons_of_mem [] hm

theorem of_character (h : Separated (character c :: ps)) : Separated ps := by
  obtain ⟨hsingle, hbefore⟩ := h
  obtain ⟨first, others, hsegments⟩ := List.exists_cons_of_ne_nil (segments_ne_nil ps)
  rw [segments, hsegments, Text.push] at hsingle hbefore
  constructor <;> rw [hsegments]
  · intro segment hm hrun
    rcases List.mem_cons.1 hm with rfl | hm
    · exact hsingle _ List.mem_cons_self (List.infix_cons hrun)
    · exact hsingle segment (List.mem_cons_of_mem _ hm) hrun
  · intro segment hm hend
    cases others with
    | nil => cases hm
    | cons second others =>
      rcases List.mem_cons.1 hm with rfl | hm
      · refine hbefore (c :: segment) List.mem_cons_self ?_
        rw [List.getLast?_cons, hend]
        rfl
      · exact hbefore segment (List.mem_cons_of_mem _ hm) hend

theorem apart_head (h : Separated (character c :: ps)) :
    ∀ b ∈ ps.head?, Apart (character c) b := by
  intro b hb hopen hhead
  cases hopen
  obtain ⟨later, rfl⟩ := List.head?_eq_some_iff.1 hb
  obtain ⟨segment, more, hmore⟩ := List.exists_cons_of_ne_nil (segments_ne_nil later)
  cases b with
  | character d =>
    cases hhead
    have hfirst : ('{' :: '{' :: segment) ∈ segments (character '{' :: character '{' :: later) := by
      simp [segments, hmore, Text.push]
    exact h.single _ hfirst ⟨[], segment, rfl⟩
  | placeholder name =>
    have hfirst : ['{'] ∈ (segments (character '{' :: placeholder name :: later)).dropLast := by
      simp [segments, hmore, Text.push]
    exact h.before _ hfirst rfl

theorem isChain {ps : List Piece} (h : Separated ps) : ps.IsChain Apart := by
  induction ps with
  | nil => exact .nil
  | cons piece rest ih =>
    cases piece with
    | character c => exact List.isChain_cons.2 ⟨h.apart_head, ih h.of_character⟩
    | placeholder name =>
      exact List.isChain_cons.2 ⟨fun b _ => apart_placeholder name b, ih h.of_placeholder⟩

end Separated

/-- The characters of a filled row, each with a mark that tells those of the row from those of the
texts that stand for names. -/
def marked (text : Text → Text) (ps : List Piece) : List (Char × Bool) :=
  ps.flatMap fun
    | character c => [(c, true)]
    | placeholder name => (text name).map (·, false)

theorem map_fst_marked (text : Text → Text) (ps : List Piece) :
    (marked text ps).map Prod.fst = textWith text ps := by
  induction ps with
  | nil => rfl
  | cons piece ps ih =>
    cases piece with
    | character c => exact congrArg (c :: ·) ih
    | placeholder name =>
      simp only [marked, textWith, List.flatMap_cons, List.map_append, List.map_map] at ih ⊢
      rw [ih]
      simp [Function.comp_def]

theorem map_fst_filter_marked (text : Text → Text) (ps : List Piece) :
    ((marked text ps).filter Prod.snd).map Prod.fst = textWith (fun _ => []) ps := by
  induction ps with
  | nil => rfl
  | cons piece ps ih =>
    cases piece with
    | character c => exact congrArg (c :: ·) ih
    | placeholder name =>
      simp only [marked, textWith, List.flatMap_cons, List.filter_append, List.map_append] at ih ⊢
      rw [ih]
      simp

/-- A marked placeholder whose braces belong to the row is one without the texts as well. -/
theorem source_filter_marked {marks : List (Char × Bool)} {name : Text} (hname : isName name = true)
    (hbraces : ∀ mark ∈ marks, mark.1 = '{' ∨ mark.1 = '}' → mark.2 = true)
    (h : marks.map Prod.fst = (placeholder name).source) :
    ∃ rest, isName rest = true ∧
      (marks.filter Prod.snd).map Prod.fst = (placeholder rest).source := by
  rw [source_placeholder] at h
  obtain ⟨a, marks, rfl, ha, h⟩ := List.map_eq_cons_iff.1 h
  obtain ⟨b, marks, rfl, hb, h⟩ := List.map_eq_cons_iff.1 h
  obtain ⟨inner, marks, rfl, hinner, h⟩ := List.map_eq_append_iff.1 h
  obtain ⟨c, marks, rfl, hc, h⟩ := List.map_eq_cons_iff.1 h
  obtain ⟨d, marks, rfl, hd, h⟩ := List.map_eq_cons_iff.1 h
  obtain rfl := List.map_eq_nil_iff.1 h
  have ha' : a.2 = true := hbraces a (by simp) (Or.inl ha)
  have hb' : b.2 = true := hbraces b (by simp) (Or.inl hb)
  have hc' : c.2 = true := hbraces c (by simp) (Or.inr hc)
  have hd' : d.2 = true := hbraces d (by simp) (Or.inr hd)
  refine ⟨(inner.filter Prod.snd).map Prod.fst, ?_, ?_⟩
  · have hsub : ((inner.filter Prod.snd).map Prod.fst).Sublist name :=
      hinner ▸ List.filter_sublist.map Prod.fst
    exact List.all_eq_true.2 fun x hx => List.all_eq_true.1 hname x (hsub.subset hx)
  · simp [source_placeholder, ha, hb, hc, hd, ha', hb', hc', hd']

/-- Texts without braces bring in no placeholder: one that is spelled in the filled row is spelled by
the characters of the row alone, if the texts are left out. -/
theorem hides_of_textWith {text : Text → Text} {ps : List Piece}
    (htext : ∀ name ∈ names ps, '{' ∉ text name ∧ '}' ∉ text name)
    (h : Hides ((textWith text ps).map character)) :
    Hides ((textWith (fun _ => []) ps).map character) := by
  obtain ⟨name, hname, hrun⟩ := hides_characters_iff.1 h
  rw [← map_fst_marked, List.infix_map_iff] at hrun
  obtain ⟨marks, hmarks, hsource⟩ := hrun
  have hbraces : ∀ mark ∈ marked text ps, mark.1 = '{' ∨ mark.1 = '}' → mark.2 = true := by
    intro mark hm hbrace
    obtain ⟨piece, hpiece, hmark⟩ := List.mem_flatMap.1 hm
    cases piece with
    | character c => rw [List.mem_singleton.1 hmark]
    | placeholder other =>
      obtain ⟨c, hc, rfl⟩ := List.mem_map.1 hmark
      have hother : other ∈ names ps := List.mem_filterMap.2 ⟨_, hpiece, rfl⟩
      obtain ⟨hopen, hclose⟩ := htext other hother
      rcases hbrace with rfl | rfl
      · exact absurd hc hopen
      · exact absurd hc hclose
  obtain ⟨rest, hrest, hkept⟩ := source_filter_marked hname
    (fun mark hm => hbraces mark (hmarks.subset hm)) hsource.symm
  refine hides_characters_iff.2 ⟨rest, hrest, ?_⟩
  rw [← hkept, ← map_fst_filter_marked text]
  exact (hmarks.filter Prod.snd).map Prod.fst

end Piece

end PromptChain
