import Mathlib.Data.List.Sort
import PromptChain.Table

/-! Tables by what is under their names: which names have values after an operation, and tables with
the same values under all names are the same. -/
namespace PromptChain.Table

variable {α : Type}

theorem Sorted.nodup_keys {entries : List (Text × α)} (h : Sorted entries) :
    (entries.map Prod.fst).Nodup := by
  refine List.pairwise_map.2 (List.Pairwise.imp (fun {a b} hlt heq => ?_) h)
  exact List.lt_irrefl b.1 (heq ▸ hlt)

theorem Sorted.map {β : Type} {entries : List (Text × α)} (h : Sorted entries) (f : α → β) :
    Sorted (entries.map fun entry => (entry.1, f entry.2)) :=
  List.pairwise_map.2 h

theorem mem_of_lookup {name : Text} {value : α} {entries : List (Text × α)}
    (h : entries.lookup name = some value) : (name, value) ∈ entries := by
  obtain ⟨before, after, rfl, -⟩ := List.lookup_eq_some_iff.1 h
  exact List.mem_append_right _ List.mem_cons_self

theorem mem_entries_iff {name : Text} {value : α} {t : Table α} :
    (name, value) ∈ t.entries ↔ t.get? name = some value := by
  refine ⟨fun h => ?_, mem_of_lookup⟩
  obtain ⟨before, after, heq⟩ := List.append_of_mem h
  have hsorted := heq ▸ t.sorted
  refine List.lookup_eq_some_iff.2 ⟨before, after, heq, fun entry hentry => ?_⟩
  -- The entries before that of the name have smaller names.
  have hlt : entry.1 < name :=
    (List.pairwise_append.1 hsorted).2.2 entry hentry (name, value) List.mem_cons_self
  exact bne_iff_ne.2 fun hname => List.lt_irrefl name (hname ▸ hlt)

/-- Tables with the same values under all names are the same. -/
theorem ext_get? {s t : Table α} (h : ∀ name, s.get? name = t.get? name) : s = t := by
  have : Std.Irrefl fun a b : Text × α => a.1 < b.1 := ⟨fun a => List.lt_irrefl a.1⟩
  have : Std.Antisymm fun a b : Text × α => a.1 < b.1 :=
    ⟨fun a b hab hba => absurd (List.lt_trans hab hba) (List.lt_irrefl a.1)⟩
  refine Table.ext (List.Pairwise.eq_of_mem_iff s.sorted t.sorted fun entry => ?_)
  rw [mem_entries_iff, mem_entries_iff, h]

theorem has_insert {name other : Text} {value : α} {t : Table α} :
    (t.insert name value).has other = true ↔ other = name ∨ t.has other = true := by
  by_cases h : other = name
  · simp [has, h]
  · simp [has, get?_insert_of_ne h, h]

theorem has_ofList {name : Text} {entries : List (Text × α)} :
    (ofList entries).has name = true ↔ name ∈ entries.map Prod.fst := by
  rw [has, get?_ofList, List.lookup_isSome_iff, List.mem_map]
  simp only [List.mem_reverse, beq_iff_eq, @eq_comm _ name]

theorem mem_of_mem_ofList {entries : List (Text × α)} {entry : Text × α}
    (h : entry ∈ (ofList entries).entries) : entry ∈ entries := by
  have hget := mem_entries_iff.1 h
  rw [get?_ofList] at hget
  exact List.mem_reverse.1 (mem_of_lookup hget)

/-- Sorted entries are those of their own table. -/
theorem Sorted.entries_ofList {entries : List (Text × α)} (h : Sorted entries) :
    (ofList entries).entries = entries := by
  induction entries with
  | nil => rfl
  | cons entry rest ih =>
    obtain ⟨name, value⟩ := entry
    obtain ⟨hname, hrest⟩ := List.pairwise_cons.1 h
    have hput : (ofList ((name, value) :: rest)).entries =
        Table.put (fun _ old => old) name value (ofList rest).entries := rfl
    rw [hput, ih hrest]
    cases rest with
    | nil => rfl
    | cons next rest =>
      have hlt : name < next.1 := hname next List.mem_cons_self
      have hne : name ≠ next.1 := fun heq => List.lt_irrefl _ (heq ▸ hlt)
      rw [Table.put, if_neg hne, if_pos hlt]

theorem lookup_map (value : Text → α) (names : List Text) (name : Text) :
    (names.map fun name => (name, value name)).lookup name =
      if name ∈ names then some (value name) else none := by
  induction names with
  | nil => rfl
  | cons first rest ih =>
    rw [List.map_cons, lookup_cons, ih]
    by_cases h : name = first <;> simp [h]

theorem get?_ofList_map (value : Text → α) (names : List Text) (name : Text) :
    (ofList (names.map fun name => (name, value name))).get? name =
      if name ∈ names then some (value name) else none := by
  simp only [get?_ofList, ← List.map_reverse, lookup_map, List.mem_reverse]

end PromptChain.Table
