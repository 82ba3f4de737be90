import PromptChain.FileTree
import PromptChain.Proofs.Outcome

/-! A file that was written is there. The directories on the way to it stay directories, since no
directory is written over. -/
namespace PromptChain.FileTree

variable {tree : FileTree} {location : Location} {entry : Entry}

theorem lookup_put_self (tree : FileTree) (location : Location) (entry : Entry) :
    (tree.put location entry).lookup location = some entry := by
  induction tree with
  | nil => simp [put]
  | cons first rest ih =>
    obtain ⟨other, old⟩ := first
    rw [put]
    split
    · simp
    · next hne =>
      have hbeq : (location == other) = false := beq_eq_false_iff_ne.2 (Ne.symm hne)
      rw [List.lookup_cons, hbeq, ih]

theorem lookup_put_of_ne {other : Location} (h : other ≠ location) (tree : FileTree)
    (entry : Entry) : (tree.put location entry).lookup other = tree.lookup other := by
  have hbeq : (other == location) = false := beq_eq_false_iff_ne.2 h
  induction tree with
  | nil => rw [put, List.lookup_cons, hbeq]
  | cons first rest ih =>
    obtain ⟨key, old⟩ := first
    rw [put]
    split
    · next heq => rw [heq, List.lookup_cons, List.lookup_cons, hbeq]
    · rw [List.lookup_cons, List.lookup_cons, ih]

theorem get?_put_self (h : location ≠ []) :
    (tree.put location entry).get? location = some entry := by
  rw [get?, List.isEmpty_eq_false_iff.2 h, if_neg Bool.false_ne_true, lookup_put_self]

theorem get?_put_of_ne {other : Location} (h : other ≠ location) :
    (tree.put location entry).get? other = tree.get? other := by
  rw [get?, get?, lookup_put_of_ne h]

/-- A tree in which the directories of another one are directories. -/
def KeepsDirectories (tree tree' : FileTree) : Prop :=
  ∀ names, tree.get? names = some .directory → tree'.get? names = some .directory

theorem keepsDirectories_put (hlocation : tree.get? location ≠ some .directory) :
    KeepsDirectories tree (tree.put location entry) := by
  intro names hnames
  have hne : names ≠ location := by
    rintro rfl
    exact hlocation hnames
  rw [get?_put_of_ne hne, hnames]

/-- Where one part of a path leads to from a directory. -/
def Place.next (part : Text) (place : Place) : Except SystemError Place :=
  if part = Path.here then .ok place
  else if part = Path.above then .ok place.above
  else (place.enter part).map .location

section Follow

variable {tree' : FileTree} {place found : Place} {part : Text} {parts : List Text}

theorem checkDirectory_eq_ok_iff {names : Location} :
    tree.checkDirectory (.location names) = .ok () ↔ tree.get? names = some .directory := by
  rw [checkDirectory]
  cases tree.get? names with
  | none => simp
  | some old => cases old <;> simp

theorem KeepsDirectories.checkDirectory (hkeeps : KeepsDirectories tree tree')
    (h : tree.checkDirectory place = .ok ()) : tree'.checkDirectory place = .ok () := by
  cases place with
  | removed above => rfl
  | location names => exact checkDirectory_eq_ok_iff.2 (hkeeps names (checkDirectory_eq_ok_iff.1 h))

/-- A path is followed part by part. -/
theorem follow_cons_eq_ok_iff :
    tree.follow place (part :: parts) = .ok found ↔
      tree.checkDirectory place = .ok () ∧
        ∃ next, place.next part = .ok next ∧ tree.follow next parts = .ok found := by
  have hfollow : tree.follow place (part :: parts) = (do
      tree.checkDirectory place
      tree.follow (← place.next part) parts) := by
    rw [follow, Place.next]
    split
    · rfl
    · split
      · rfl
      · cases place.enter part <;> rfl
  simp only [hfollow, Outcome.bind_eq_ok_iff]
  exact ⟨fun ⟨_, h⟩ => h, fun h => ⟨(), h⟩⟩

/-- A path is followed the same way in a tree that keeps the directories. -/
theorem KeepsDirectories.follow (hkeeps : KeepsDirectories tree tree')
    (h : tree.follow place parts = .ok found) : tree'.follow place parts = .ok found := by
  induction parts generalizing place with
  | nil => exact h
  | cons part parts ih =>
    obtain ⟨hcheck, next, hnext, h⟩ := follow_cons_eq_ok_iff.1 h
    exact follow_cons_eq_ok_iff.2 ⟨hkeeps.checkDirectory hcheck, next, hnext, ih h⟩

theorem follow_append_eq_ok_iff {more : List Text} :
    tree.follow place (parts ++ more) = .ok found ↔
      ∃ directory, tree.follow place parts = .ok directory ∧
        tree.follow directory more = .ok found := by
  induction parts generalizing place with
  | nil => simp [follow]
  | cons part parts ih =>
    simp only [List.cons_append, follow_cons_eq_ok_iff, ih]
    constructor
    · rintro ⟨hcheck, next, hnext, directory, h, hmore⟩
      exact ⟨directory, ⟨hcheck, next, hnext, h⟩, hmore⟩
    · rintro ⟨directory, ⟨hcheck, next, hnext, h⟩, hmore⟩
      exact ⟨hcheck, next, hnext, directory, h, hmore⟩

/-- A name leads from a directory to what stands under it there. -/
theorem follow_name_eq_ok_iff {name : Text} (hname : isName name = true) :
    tree.follow place [name] = .ok found ↔
      tree.checkDirectory place = .ok () ∧
        ∃ location, place.enter name = .ok location ∧ found = .location location := by
  obtain ⟨hhere, habove⟩ : name ≠ Path.here ∧ name ≠ Path.above := by
    simpa [isName] using hname
  rw [follow_cons_eq_ok_iff, Place.next, if_neg hhere, if_neg habove]
  simp only [Outcome.map_eq_ok_iff, follow, Except.ok.injEq]
  grind

end Follow

theorem eq_of_enter {directory : Place} {name : Text} (h : directory.enter name = .ok location) :
    ∃ names, location = names ++ [name] := by
  cases directory with
  | removed above => cases h
  | location names =>
    rw [Place.enter] at h
    split at h
    · cases h
    · cases h
      exact ⟨names, rfl⟩

/-- What is read is a file's content. -/
theorem read_eq_ok_iff {place : Place} {p : Path} {content : Bytes} :
    tree.read place p = .ok content ↔
      ∃ names, tree.locate place p = .ok (.location names) ∧
        tree.get? names = some (.file content) := by
  rw [read, Outcome.bind_eq_ok_iff]
  constructor
  · rintro ⟨found, hlocate, h⟩
    cases found with
    | removed above => cases h
    | location names =>
      refine ⟨names, hlocate, ?_⟩
      rw [entryAt?] at h
      cases hget : tree.get? names with
      | none =>
        rw [hget] at h
        cases h
      | some entry =>
        rw [hget] at h
        cases entry with
        | directory => cases h
        | file found =>
          cases h
          rfl
  · rintro ⟨names, hlocate, hget⟩
    refine ⟨.location names, hlocate, ?_⟩
    rw [entryAt?, hget]
    rfl

/-- What a write does: it puts a file where a path's last part stands, and no directory is there. -/
theorem write_eq_ok {place : Place} {p : Path} {content : Bytes} {tree' : FileTree}
    (h : tree.write place p content = .ok tree') :
    ∃ start directory name location, origin place p = .ok start ∧
      tree.follow start (Path.parts p).dropLast = .ok directory ∧
      tree.checkDirectory directory = .ok () ∧ (Path.parts p).getLast? = some name ∧
      isName name = true ∧ Path.endsInSlash p = false ∧ directory.enter name = .ok location ∧
      tree.get? location ≠ some .directory ∧ tree' = tree.put location (.file content) := by
  obtain ⟨⟨directory, last⟩, hparent, h⟩ := Outcome.bind_eq_ok_iff.1 h
  obtain ⟨start, hstart, hparent⟩ := Outcome.bind_eq_ok_iff.1 hparent
  obtain ⟨found, hfollow, hparent⟩ := Outcome.bind_eq_ok_iff.1 hparent
  obtain ⟨⟨⟩, hcheck, hparent⟩ := Outcome.bind_eq_ok_iff.1 hparent
  cases hparent
  cases hlast : (Path.parts p).getLast? with
  | none =>
    rw [hlast] at h
    cases h
  | some name =>
    rw [hlast] at h
    dsimp only at h
    split at h
    · cases h
    · next hkind =>
      obtain ⟨location, henter, h⟩ := Outcome.bind_eq_ok_iff.1 h
      split at h
      · cases h
      · next hfree =>
        cases h
        rw [Bool.or_eq_true, not_or, Bool.not_eq_true', Bool.not_eq_false,
          Bool.not_eq_true] at hkind
        exact ⟨start, directory, name, location, hstart, hfollow, hcheck, rfl, hkind.1, hkind.2,
          henter, hfree, rfl⟩

/-- A file that was written holds what was written. -/
theorem read_of_write {place : Place} {p : Path} {content : Bytes} {tree' : FileTree}
    (h : tree.write place p content = .ok tree') : tree'.read place p = .ok content := by
  obtain ⟨start, directory, name, location, hstart, hfollow, hcheck, hlast, hname, hslash, henter,
    hfree, rfl⟩ := write_eq_ok h
  have hparts : (Path.parts p).dropLast ++ [name] = Path.parts p := by
    obtain ⟨front, hfront⟩ := List.getLast?_eq_some_iff.1 hlast
    rw [hfront, List.dropLast_concat]
  have hlocate : (tree.put location (.file content)).locate place p = .ok (.location location) := by
    rw [locate, hstart]
    change follow _ start _ = _
    rw [hslash, if_neg Bool.false_ne_true, List.append_nil, ← hparts]
    have hkeeps : KeepsDirectories tree (tree.put location (.file content)) :=
      keepsDirectories_put hfree
    exact follow_append_eq_ok_iff.2 ⟨directory, hkeeps.follow hfollow,
      (follow_name_eq_ok_iff hname).2 ⟨hkeeps.checkDirectory hcheck, location, henter, rfl⟩⟩
  have hne : location ≠ [] := by
    obtain ⟨names, rfl⟩ := eq_of_enter henter
    simp
  exact read_eq_ok_iff.2 ⟨location, hlocate, get?_put_self hne⟩

end PromptChain.FileTree
