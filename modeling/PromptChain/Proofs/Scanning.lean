import Mathlib.Data.List.Infix
import PromptChain.Proofs.Filling

/-! Scanning for placeholders: they are found wherever they are spelled, and a row of pieces is cut
from its text again unless its characters spell another one. -/
namespace PromptChain

/-- Whether a text can be the name of a placeholder. -/
def isName (name : Text) : Bool :=
  name.all isNameCharacter

namespace Piece

/-- A run of characters in the row spells a placeholder that is no piece of the row. -/
def Hides (ps : List Piece) : Prop :=
  ∃ name, isName name = true ∧ (placeholder name).source.map character <:+: ps

theorem source_placeholder (name : Text) :
    (placeholder name).source = '{' :: '{' :: (name ++ ['}', '}']) := rfl

theorem names_append (ps qs : List Piece) : names (ps ++ qs) = names ps ++ names qs :=
  List.filterMap_append

@[simp] theorem names_characters (text : Text) : names (text.map character) = [] := by
  rw [names, List.filterMap_map]
  exact List.filterMap_eq_nil_iff.2 fun _ _ => rfl

end Piece

namespace Text

@[simp] theorem ofPieces_nil : ofPieces [] = [] := rfl

@[simp] theorem ofPieces_cons (piece : Piece) (ps : List Piece) :
    ofPieces (piece :: ps) = piece.source ++ ofPieces ps := rfl

@[simp] theorem ofPieces_append (ps qs : List Piece) :
    ofPieces (ps ++ qs) = ofPieces ps ++ ofPieces qs :=
  List.flatMap_append

@[simp] theorem ofPieces_characters (t : Text) : ofPieces (t.map .character) = t := by
  induction t with
  | nil => rfl
  | cons c t ih => rw [List.map_cons, ofPieces_cons, ih]; rfl

theorem source_infix_ofPieces {ps : List Piece} {name : Text} (h : name ∈ Piece.names ps) :
    (Piece.placeholder name).source <:+: ofPieces ps := by
  obtain ⟨piece, hm, hname⟩ := List.mem_filterMap.1 h
  cases piece with
  | character c => cases hname
  | placeholder other =>
    cases hname
    obtain ⟨front, back, rfl⟩ := List.append_of_mem hm
    exact ⟨ofPieces front, ofPieces back, by simp⟩

theorem placeholder?_source_append {name : Text} (h : isName name = true) (rest : Text) :
    placeholder? ((Piece.placeholder name).source ++ rest) = some (name, rest) := by
  have hall : ∀ c ∈ name, isNameCharacter c = true := List.all_eq_true.1 h
  have hclose : isNameCharacter '}' = false := rfl
  have htake : (name ++ '}' :: '}' :: rest).takeWhile isNameCharacter = name := by
    rw [List.takeWhile_append_of_pos hall]
    simp [hclose]
  have hdrop : (name ++ '}' :: '}' :: rest).dropWhile isNameCharacter = '}' :: '}' :: rest := by
    rw [List.dropWhile_append_of_pos hall]
    simp [hclose]
  simp [Piece.source, placeholder?, htake, hdrop]

theorem isName_of_placeholder? {t name rest : Text} (h : placeholder? t = some (name, rest)) :
    isName name = true := by
  unfold placeholder? at h
  split at h
  · next u =>
    split at h
    · cases h
      exact List.all_takeWhile
    · cases h
  · cases h

theorem pieces_of_some {t name rest : Text} (h : placeholder? t = some (name, rest)) :
    pieces t = .placeholder name :: pieces rest := by
  rw [pieces]
  split
  · next name' rest' h' =>
    rw [h] at h'
    cases h'
    rfl
  · next h' =>
    rw [h] at h'
    cases h'

theorem pieces_of_none {c : Char} {t : Text} (h : placeholder? (c :: t) = none) :
    pieces (c :: t) = .character c :: pieces t := by
  rw [pieces]
  split
  · next h' =>
    rw [h] at h'
    cases h'
  · rfl

theorem isName_of_mem_placeholders {t name : Text} (h : name ∈ t.placeholders) :
    isName name = true := by
  change name ∈ Piece.names (pieces t) at h
  fun_induction pieces t with
  | case1 t other rest hp ih =>
    rcases List.mem_cons.1 h with rfl | h
    · exact isName_of_placeholder? hp
    · exact ih h
  | case2 => cases h
  | case3 c rest hp ih => exact ih h

private theorem open_notMem_name {name : Text} (h : isName name = true) :
    '{' ∉ name ++ ['}', '}'] := by
  intro hm
  rcases List.mem_append.1 hm with hm | hm
  · exact absurd (List.all_eq_true.1 h _ hm) (by decide)
  · exact absurd hm (by decide)

/-- Two placeholders in a text do not overlap. -/
theorem suffix_of_source_append {name other front rest back : Text} (hname : isName name = true)
    (hne : front ≠ []) (h : front ++ ((Piece.placeholder other).source ++ back) =
      (Piece.placeholder name).source ++ rest) :
    ∃ later, rest = later ++ ((Piece.placeholder other).source ++ back) := by
  rcases List.append_eq_append_iff.1 h with ⟨a, hsource, ha⟩ | ⟨later, -, hrest⟩
  · -- The second placeholder would start inside of the first one.
    cases a with
    | nil => exact ⟨[], by simpa using ha.symm⟩
    | cons c a =>
      obtain ⟨rfl, htail⟩ := List.cons.inj ha
      have hmem : '{' ∈ name ++ ['}', '}'] := by
        rcases front with _ | ⟨d, _ | ⟨d', front⟩⟩
        · exact absurd rfl hne
        · -- At the second brace of the first one, where no third one follows.
          have hinner : name ++ ['}', '}'] = a := (List.cons.inj (List.cons.inj hsource).2).2
          cases a with
          | nil => simp at hinner
          | cons c a =>
            rw [hinner]
            exact (List.cons.inj htail).1 ▸ List.mem_cons_self
        · have hinner : name ++ ['}', '}'] = front ++ '{' :: a :=
            (List.cons.inj (List.cons.inj hsource).2).2
          rw [hinner]
          simp
      exact absurd hmem (open_notMem_name hname)
  · exact ⟨later, hrest⟩

/-- A placeholder is found wherever it is spelled. -/
theorem mem_placeholders_iff {t name : Text} :
    name ∈ t.placeholders ↔ isName name = true ∧ (Piece.placeholder name).source <:+: t := by
  constructor
  · intro h
    have hsource := source_infix_ofPieces h
    rw [ofPieces_pieces] at hsource
    exact ⟨isName_of_mem_placeholders h, hsource⟩
  · rintro ⟨hname, front, back, hsource⟩
    rw [List.append_assoc] at hsource
    change name ∈ Piece.names (pieces t)
    fun_induction pieces t generalizing front with
    | case1 t other rest hp ih =>
      cases front with
      | nil =>
        rw [← hsource, List.nil_append, placeholder?_source_append hname] at hp
        cases hp
        simp
      | cons c front =>
        rw [eq_of_placeholder? hp] at hsource
        obtain ⟨later, hlater⟩ := suffix_of_source_append (isName_of_placeholder? hp) (by simp) hsource
        simp [ih later hlater.symm]
    | case2 => simp [Piece.source] at hsource
    | case3 c rest hp ih =>
      cases front with
      | nil =>
        rw [← hsource, List.nil_append, placeholder?_source_append hname] at hp
        cases hp
      | cons d front => exact ih front (List.cons.inj hsource).2

/-- A row whose text starts with characters other than `{` starts with these characters. -/
theorem characters_of_ofPieces {ps : List Piece} {run rest : Text} (hrun : '{' ∉ run)
    (h : ofPieces ps = run ++ rest) : ∃ qs, ps = run.map .character ++ qs := by
  induction run generalizing ps with
  | nil => exact ⟨ps, rfl⟩
  | cons c run ih =>
    cases ps with
    | nil => cases h
    | cons piece ps =>
      cases piece with
      | placeholder name =>
        have hc : '{' = c := (List.cons.inj h).1
        exact absurd (hc ▸ List.mem_cons_self) hrun
      | character d =>
        obtain ⟨rfl, hrest⟩ := List.cons.inj h
        obtain ⟨qs, rfl⟩ := ih (fun hm => hrun (List.mem_cons_of_mem d hm)) hrest
        exact ⟨qs, rfl⟩

/-- A character that starts a placeholder in the text of a row starts a hidden one. -/
theorem hides_of_placeholder? {c : Char} {ps : List Piece} {name rest : Text}
    (h : placeholder? (c :: ofPieces ps) = some (name, rest)) :
    Piece.Hides (.character c :: ps) := by
  have hname := isName_of_placeholder? h
  have hclosed := open_notMem_name hname
  have htext := eq_of_placeholder? h
  obtain ⟨rfl, hps⟩ := List.cons.inj htext
  -- The second brace belongs to no placeholder, since a third one would follow it.
  obtain ⟨qs, rfl⟩ : ∃ qs, ps = .character '{' :: qs := by
    cases ps with
    | nil => cases hps
    | cons piece qs =>
      cases piece with
      | placeholder other =>
        have hthird : '{' :: (other ++ ['}', '}'] ++ ofPieces qs) =
            name ++ ['}', '}'] ++ rest := (List.cons.inj hps).2
        have hmem : '{' ∈ name ++ ['}', '}'] := by
          cases name with
          | nil => cases (List.cons.inj hthird).1
          | cons d name => simp [← (List.cons.inj hthird).1]
        exact absurd hmem hclosed
      | character d =>
        obtain ⟨rfl, -⟩ := List.cons.inj hps
        exact ⟨qs, rfl⟩
  obtain ⟨later, rfl⟩ := characters_of_ofPieces hclosed (List.cons.inj hps).2
  refine ⟨name, hname, [], later, ?_⟩
  simp [Piece.source_placeholder]

/-- A row that hides nothing is cut from its text again. -/
theorem pieces_ofPieces {ps : List Piece} (hn : ∀ name ∈ Piece.names ps, isName name = true)
    (hh : ¬Piece.Hides ps) : pieces (ofPieces ps) = ps := by
  induction ps with
  | nil => simp [pieces, placeholder?]
  | cons piece ps ih =>
    have hrest : ¬Piece.Hides ps := by
      rintro ⟨name, hname, hrun⟩
      exact hh ⟨name, hname, hrun.trans (List.suffix_cons piece ps).isInfix⟩
    cases piece with
    | placeholder name =>
      have hp := placeholder?_source_append (hn name (by simp)) (ofPieces ps)
      rw [ofPieces_cons, pieces_of_some hp, ih (fun other hm => hn other (by simp [hm])) hrest]
    | character c =>
      have hp : placeholder? (c :: ofPieces ps) = none := by
        cases hp : placeholder? (c :: ofPieces ps) with
        | none => rfl
        | some found => exact absurd (hides_of_placeholder? hp) hh
      change pieces (c :: ofPieces ps) = _
      rw [pieces_of_none hp, ih hn hrest]

end Text

namespace Piece

theorem hides_characters_iff {t : Text} :
    Hides (t.map character) ↔ ∃ name, isName name = true ∧ (placeholder name).source <:+: t := by
  have hinj : Function.Injective character := fun _ _ h => by cases h; rfl
  constructor
  · rintro ⟨name, hname, hrun⟩
    obtain ⟨run, hinfix, heq⟩ := List.infix_map_iff.1 hrun
    rw [← List.map_injective_iff.2 hinj heq] at hinfix
    exact ⟨name, hname, hinfix⟩
  · rintro ⟨name, hname, hrun⟩
    exact ⟨name, hname, hrun.map character⟩

end Piece

theorem Text.placeholders_eq_nil_iff {t : Text} :
    t.placeholders = [] ↔ ¬Piece.Hides (t.map .character) := by
  rw [Piece.hides_characters_iff, List.eq_nil_iff_forall_not_mem, not_exists]
  exact forall_congr' fun name => not_congr Text.mem_placeholders_iff

end PromptChain
