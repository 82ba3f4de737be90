import PromptChain.Text.Basic

/-! Tables: values under names, in the order of the names. -/
namespace PromptChain

/-- Entries in the order of their names, each name once. -/
def Table.Sorted {α : Type} (entries : List (Text × α)) : Prop :=
  entries.Pairwise fun a b => a.1 < b.1

instance {α : Type} (entries : List (Text × α)) : Decidable (Table.Sorted entries) :=
  inferInstanceAs (Decidable (entries.Pairwise fun a b => a.1 < b.1))

/-- Values under names. -/
@[ext] structure Table (α : Type) where
  entries : List (Text × α)
  sorted : Table.Sorted entries

namespace Table

variable {α : Type}

/-- Entries with a value under a name, in its place. A value that the name has already is `old` in
`merge value old`, which takes its place. -/
def put (merge : α → α → α) (name : Text) (value : α) : List (Text × α) → List (Text × α)
  | [] => [(name, value)]
  | (key, old) :: rest =>
    if name = key then (key, merge value old) :: rest
    else if name < key then (name, value) :: (key, old) :: rest
    else (key, old) :: put merge name value rest

theorem mem_put {merge : α → α → α} {name : Text} {value : α} {entries : List (Text × α)}
    {entry : Text × α} (h : entry ∈ put merge name value entries) :
    entry.1 = name ∨ entry ∈ entries := by
  induction entries with
  | nil =>
    rw [List.mem_singleton.1 h]
    exact Or.inl rfl
  | cons other rest ih =>
    obtain ⟨key, old⟩ := other
    simp only [put] at h
    split at h
    · rcases List.mem_cons.1 h with rfl | h
      · exact Or.inl (Eq.symm ‹_›)
      · exact Or.inr (List.mem_cons_of_mem _ h)
    · split at h
      · rcases List.mem_cons.1 h with rfl | h
        · exact Or.inl rfl
        · exact Or.inr h
      · rcases List.mem_cons.1 h with rfl | h
        · exact Or.inr List.mem_cons_self
        · exact (ih h).imp_right (List.mem_cons_of_mem _)

theorem Sorted.put {entries : List (Text × α)} (h : Sorted entries) (merge : α → α → α)
    (name : Text) (value : α) : Sorted (put merge name value entries) := by
  induction entries with
  | nil => exact List.pairwise_singleton _ _
  | cons other rest ih =>
    obtain ⟨key, old⟩ := other
    obtain ⟨hkey, hrest⟩ := List.pairwise_cons.1 h
    simp only [Table.put]
    split
    · exact List.pairwise_cons.2 ⟨hkey, hrest⟩
    · rename_i hne
      split
      · rename_i hlt
        refine List.pairwise_cons.2 ⟨fun entry hentry => ?_, h⟩
        rcases List.mem_cons.1 hentry with rfl | hentry
        · exact hlt
        · exact List.lt_trans hlt (hkey entry hentry)
      · rename_i hlt
        have hgt : key < name :=
          (List.le_iff_lt_or_eq.1 (List.not_lt.1 hlt)).resolve_right (Ne.symm hne)
        refine List.pairwise_cons.2 ⟨fun entry hentry => ?_, ih hrest⟩
        rcases mem_put hentry with heq | hentry
        · exact heq ▸ hgt
        · exact hkey entry hentry

instance : EmptyCollection (Table α) := ⟨⟨[], List.Pairwise.nil⟩⟩

def get? (name : Text) (t : Table α) : Option α :=
  t.entries.lookup name

def has (name : Text) (t : Table α) : Bool :=
  (t.get? name).isSome

/-- Puts a value under a name, in the place of the value that it had. -/
def insert (name : Text) (value : α) (t : Table α) : Table α :=
  ⟨put (fun new _ => new) name value t.entries, t.sorted.put _ name value⟩

def insertNew (name : Text) (value : α) (t : Table α) : Table α :=
  ⟨put (fun _ old => old) name value t.entries, t.sorted.put _ name value⟩

/-- The table of a row of names and values. Of two values of one name the later one counts. -/
def ofList (entries : List (Text × α)) : Table α :=
  entries.foldr (fun entry t => t.insertNew entry.1 entry.2) ∅

@[simp] theorem get?_empty (name : Text) : (∅ : Table α).get? name = none :=
  rfl

theorem lookup_cons (name key : Text) (value : α) (rest : List (Text × α)) :
    ((key, value) :: rest).lookup name = if name = key then some value else rest.lookup name := by
  by_cases h : name = key
  · simp [h]
  · simp [List.lookup_cons, beq_false_of_ne h, h]

/-- A name has no value in entries of larger names. -/
theorem lookup_eq_none {name : Text} {entries : List (Text × α)}
    (h : ∀ entry ∈ entries, name < entry.1) : entries.lookup name = none := by
  rw [List.lookup_eq_none_iff]
  intro entry hentry
  rw [bne_iff_ne]
  exact fun heq => List.lt_irrefl _ (heq ▸ h entry hentry)

theorem lookup_put {entries : List (Text × α)} (h : Sorted entries) (merge : α → α → α)
    (name other : Text) (value : α) :
    (put merge name value entries).lookup other =
      if other = name then some ((entries.lookup name).elim value (merge value))
      else entries.lookup other := by
  induction entries with
  | nil => exact lookup_cons other name value []
  | cons entry rest ih =>
    obtain ⟨key, old⟩ := entry
    obtain ⟨hkey, hrest⟩ := List.pairwise_cons.1 h
    by_cases hne : name = key
    · subst hne
      simp only [put, lookup_cons, if_true, Option.elim_some]
      by_cases ho : other = name <;> simp [ho]
    · by_cases hlt : name < key
      · have hnone : ((key, old) :: rest).lookup name = none := by
          refine lookup_eq_none fun entry hentry => ?_
          rcases List.mem_cons.1 hentry with rfl | hentry
          · exact hlt
          · exact List.lt_trans hlt (hkey entry hentry)
        simp only [put, if_neg hne, if_pos hlt, hnone, lookup_cons other name, Option.elim_none]
      · simp only [put, if_neg hne, if_neg hlt, lookup_cons, ih hrest]
        by_cases ho : other = key
        · simp [ho, Ne.symm hne]
        · simp [ho]

theorem get?_insert (name other : Text) (value : α) (t : Table α) :
    (t.insert name value).get? other = if other = name then some value else t.get? other := by
  rw [get?, insert, lookup_put t.sorted]
  cases t.entries.lookup name <;> rfl

@[simp] theorem get?_insert_self (name : Text) (value : α) (t : Table α) :
    (t.insert name value).get? name = some value := by
  rw [get?_insert, if_pos rfl]

theorem get?_insert_of_ne {name other : Text} (h : other ≠ name) (value : α) (t : Table α) :
    (t.insert name value).get? other = t.get? other := by
  rw [get?_insert, if_neg h]

theorem get?_insertNew (name other : Text) (value : α) (t : Table α) :
    (t.insertNew name value).get? other =
      (t.get? other).or (if other = name then some value else none) := by
  rw [get?, insertNew, lookup_put t.sorted, get?]
  by_cases h : other = name
  · subst h
    cases t.entries.lookup other <;> simp
  · simp [h]

/-- A name has the last value that stands under it in the row. -/
theorem get?_ofList (name : Text) (entries : List (Text × α)) :
    (ofList entries).get? name = entries.reverse.lookup name := by
  induction entries with
  | nil => rfl
  | cons entry rest ih =>
    rw [ofList, List.foldr_cons, ← ofList, get?_insertNew, ih, List.reverse_cons,
      List.lookup_append, lookup_cons, List.lookup_nil]

end Table

end PromptChain
