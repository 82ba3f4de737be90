import PromptChain.Proofs.FileNames
import PromptChain.Proofs.RunCommand

/-! Outputs of runs that are named after the time. A run leaves the files of all names but its own
as they are, so that runs at different times leave each other's outputs. -/
namespace PromptChain

namespace Path

/-- A name that a file can have: one part of a path, which leads to no other directory. -/
structure IsFileName (name : Text) : Prop where
  nonempty : name ≠ []
  noSlash : '/' ∉ name
  proper : FileTree.isName name = true

theorem cut_ne_nil (p : Path) : cut p ≠ [] := by
  cases p with
  | nil => simp [cut]
  | cons c p =>
    rw [cut]
    split
    · simp
    · cases cut p <;> simp [Text.push]

theorem cut_append_slash (front rest : Path) :
    cut (front ++ '/' :: rest) = cut front ++ cut rest := by
  induction front with
  | nil => rfl
  | cons c front ih =>
    rw [List.cons_append, cut, cut, ih]
    split
    · rfl
    · exact Text.push_append (cut_ne_nil front) (cut rest)

theorem cut_of_notMem {name : Text} (h : '/' ∉ name) : cut name = [name] := by
  induction name with
  | nil => rfl
  | cons c name ih =>
    rw [List.mem_cons, not_or] at h
    rw [cut, if_neg (Ne.symm h.1), ih h.2]
    rfl

section Join

variable {base : Path} {name : Text} (hname : IsFileName name)
include hname

theorem parts_append_slash (front : Path) :
    parts (front ++ '/' :: name) = parts front ++ [name] := by
  have hempty : name.isEmpty = false := List.isEmpty_eq_false_iff.2 hname.nonempty
  rw [parts, cut_append_slash, cut_of_notMem hname.noSlash, List.filter_append]
  simp [parts, hempty]

theorem join_eq (base : Path) :
    join base name = name ∨ ∃ front, join base name = front ++ '/' :: name := by
  have hrelative : isAbsolute name = false := by
    obtain ⟨c, rest, rfl⟩ := List.exists_cons_of_ne_nil hname.nonempty
    have hc : c ≠ '/' := by
      rintro rfl
      exact hname.noSlash List.mem_cons_self
    simp [isAbsolute, hc]
  rw [join, hrelative, if_neg Bool.false_ne_true]
  split
  · next hbase =>
    rcases Bool.or_eq_true_iff.1 hbase with hempty | hslash
    · rw [List.isEmpty_iff.1 hempty]
      exact Or.inl rfl
    · obtain ⟨front, rfl⟩ := List.getLast?_eq_some_iff.1 (beq_iff_eq.1 hslash)
      exact Or.inr ⟨front, by rw [List.append_assoc]; rfl⟩
  · exact Or.inr ⟨base, rfl⟩

/-- The path of a file in a directory ends in its name. -/
theorem exists_parts_join (base : Path) : ∃ front, parts (join base name) = front ++ [name] := by
  rcases join_eq hname base with heq | ⟨front, heq⟩
  · have hempty : name.isEmpty = false := List.isEmpty_eq_false_iff.2 hname.nonempty
    rw [heq, parts, cut_of_notMem hname.noSlash]
    exact ⟨[], by simp [hempty]⟩
  · rw [heq, parts_append_slash hname]
    exact ⟨parts front, rfl⟩

theorem endsInSlash_join (base : Path) : endsInSlash (join base name) = false := by
  obtain ⟨front, heq⟩ : ∃ front, join base name = front ++ name := by
    rcases join_eq hname base with heq | ⟨front, heq⟩
    · exact ⟨[], heq⟩
    · exact ⟨front ++ ['/'], by rw [heq, List.append_assoc]; rfl⟩
  rw [heq, endsInSlash, List.getLast?_append_of_ne_nil _ hname.nonempty, beq_eq_false_iff_ne]
  intro hlast
  exact hname.noSlash (List.mem_of_getLast? hlast)

end Join

end Path

namespace FileTree

/-- A tree in which the directories of another one and its files of a name stay as they are. -/
structure Keeps (name : Text) (tree tree' : FileTree) : Prop where
  directories : KeepsDirectories tree tree'
  files : ∀ names content, tree.get? (names ++ [name]) = some (.file content) →
    tree'.get? (names ++ [name]) = some (.file content)

section Keeps

variable {name : Text} {tree tree' : FileTree}

theorem Keeps.refl (name : Text) (tree : FileTree) : Keeps name tree tree :=
  ⟨fun _ h => h, fun _ _ h => h⟩

theorem Keeps.trans {between : FileTree} (h : Keeps name tree between)
    (h' : Keeps name between tree') : Keeps name tree tree' :=
  ⟨fun names hnames => h'.directories names (h.directories names hnames),
    fun names content hfile => h'.files names content (h.files names content hfile)⟩

theorem keeps_put {location : Location} {entry : Entry}
    (hdirectory : tree.get? location ≠ some .directory)
    (hfile : ∀ names, location = names ++ [name] → tree.get? location = none) :
    Keeps name tree (tree.put location entry) := by
  refine ⟨keepsDirectories_put hdirectory, ?_⟩
  intro names content hcontent
  have hne : names ++ [name] ≠ location := by
    intro heq
    have hnone := hfile names heq.symm
    rw [← heq, hcontent] at hnone
    cases hnone
  rw [get?_put_of_ne hne, hcontent]

/-- A directory is created where nothing is. -/
theorem createDirectory_eq_ok {place : Place} {p : Path}
    (h : createDirectory place p tree = .ok tree') :
    ∃ location, tree.get? location = none ∧ tree' = tree.put location .directory := by
  obtain ⟨⟨directory, last⟩, -, h⟩ := Outcome.bind_eq_ok_iff.1 h
  cases last with
  | none => cases h
  | some name =>
    dsimp only at h
    split at h
    · cases h
    · obtain ⟨location, -, h⟩ := Outcome.bind_eq_ok_iff.1 h
      split at h
      · cases h
      · next hnone =>
        cases h
        exact ⟨location, Option.not_isSome_iff_eq_none.1 hnone, rfl⟩

theorem ensureDirectory_keeps (name : Text) (place : Place) (p : Path) (tree : FileTree) :
    Keeps name tree (ensureDirectory place p tree).2 := by
  rw [ensureDirectory]
  cases hcreate : createDirectory place p tree with
  | ok tree' =>
    obtain ⟨location, hnone, rfl⟩ := createDirectory_eq_ok hcreate
    exact keeps_put (by rw [hnone]; simp) fun _ _ => hnone
  | error e =>
    dsimp only
    split <;> exact Keeps.refl name tree

theorem createAll_keeps (name : Text) (place : Place) (paths : List Path) (tree : FileTree) :
    Keeps name tree (createAll place paths tree).2 := by
  induction paths generalizing tree with
  | nil => exact Keeps.refl name tree
  | cons p above ih =>
    rw [createAll]
    split
    · have habove := ih tree
      split
      · next hall =>
        rw [hall] at habove
        exact habove
      · next hall =>
        rw [hall] at habove
        exact habove.trans (ensureDirectory_keeps name place p _)
    · exact ensureDirectory_keeps name place p tree

/-- A file of another name is written. -/
theorem write_keeps {place : Place} {directory : Path} {other : Text} {content : Bytes}
    (hother : Path.IsFileName other) (hne : other ≠ name)
    (h : tree.write place (Path.join directory other) content = .ok tree') :
    Keeps name tree tree' := by
  obtain ⟨start, above, last, location, -, -, -, hlast, -, -, henter, hfree, rfl⟩ := write_eq_ok h
  obtain ⟨front, hparts⟩ := Path.exists_parts_join hother directory
  have hother' : last = other := by
    rw [hparts, List.getLast?_concat] at hlast
    exact (Option.some.inj hlast).symm
  obtain ⟨names, hlocation⟩ := eq_of_enter henter
  refine keeps_put hfree fun names' heq => ?_
  have hlasts := (List.append_inj' (hlocation.symm.trans heq) rfl).2
  exact absurd (hother'.symm.trans (List.singleton_inj.1 hlasts)) hne

theorem Saves.keeps {place : Place} {directory : Path} {other : Text} {content : Bytes}
    {saved : Except SystemError Unit} (hother : Path.IsFileName other) (hne : other ≠ name)
    (h : Saves place directory (Path.join directory other) content tree saved tree') :
    Keeps name tree tree' := by
  have hcreate := createAll_keeps name place (Path.ancestors directory) tree
  cases h with
  | noDirectory hdirectory =>
    rw [← createDirectories, hdirectory] at hcreate
    exact hcreate
  | noFile hdirectory hfile =>
    rw [← createDirectories, hdirectory] at hcreate
    exact hcreate
  | file hdirectory hfile =>
    rw [← createDirectories, hdirectory] at hcreate
    exact hcreate.trans (write_keeps hother hne hfile)

/-- What is read from a file of a kept name is read from it afterwards. -/
theorem Keeps.read_eq (hkeeps : Keeps name tree tree') (hname : Path.IsFileName name)
    {place : Place} {directory : Path} {content : Bytes}
    (h : tree.read place (Path.join directory name) = .ok content) :
    tree'.read place (Path.join directory name) = .ok content := by
  obtain ⟨front, hparts⟩ := Path.exists_parts_join hname directory
  obtain ⟨location, hlocate, hfile⟩ := read_eq_ok_iff.1 h
  obtain ⟨start, hstart, hfollow⟩ := Outcome.bind_eq_ok_iff.1 hlocate
  have hlocate' : tree'.locate place (Path.join directory name) = .ok (.location location) :=
    Outcome.bind_eq_ok_iff.2 ⟨start, hstart, hkeeps.directories.follow hfollow⟩
  -- The path ends in the name, and so does the location.
  rw [Path.endsInSlash_join hname, if_neg Bool.false_ne_true, List.append_nil, hparts] at hfollow
  obtain ⟨above, -, hlast⟩ := follow_append_eq_ok_iff.1 hfollow
  obtain ⟨-, entered, henter, heq⟩ := (follow_name_eq_ok_iff hname.proper).1 hlast
  obtain ⟨names, hnames⟩ := eq_of_enter henter
  have hlocation : location = names ++ [name] := (Place.location.inj heq).trans hnames
  rw [hlocation] at hfile hlocate'
  exact read_eq_ok_iff.2 ⟨_, hlocate', hkeeps.files names content hfile⟩

end Keeps

end FileTree

section FileName

theorem Text.slash_notMem_padded (width n : Nat) : '/' ∉ Text.padded width n := by
  intro h
  rcases List.mem_append.1 h with hzero | hdigit
  · cases List.eq_of_mem_replicate hzero
  · exact absurd (Text.isDigit_of_mem_ofNat hdigit) (by decide)

theorem Instant.slash_notMem_text (i : Instant) : '/' ∉ i.text := by
  have hyear : '/' ∉ Instant.yearText i.year := by
    have hdigits := Text.slash_notMem_padded 4 i.year.natAbs
    unfold Instant.yearText
    dsimp only
    split
    · simpa using hdigits
    · split
      · exact hdigits
      · simpa using hdigits
  simp [Instant.text, hyear, Text.slash_notMem_padded]

theorem Instant.isFileName (i : Instant) : Path.IsFileName i.fileName := by
  have hslash : '/' ∉ i.fileName := by
    have htext := i.slash_notMem_text
    have hends : '/' ∉ "response_".toList ∧ '/' ∉ ".json".toList := by decide
    unfold Instant.fileName
    rw [List.mem_append, List.mem_append]
    tauto
  have hhead : ∃ rest, i.fileName = 'r' :: rest := ⟨_, rfl⟩
  obtain ⟨rest, hrest⟩ := hhead
  refine ⟨?_, hslash, ?_⟩
  · rw [hrest]
    exact List.cons_ne_nil _ _
  · rw [hrest]
    simp [FileTree.isName, Path.here, Path.above]

end FileName

namespace Machine

open Command (Task)

/-- A task that changes nothing but the console. -/
def UsesConsole {α : Type} (x : Task (StateM Machine) α) : Prop :=
  ∀ s, ∃ result console, carryOut x s = (result, { s with console })

section Console

variable {α β : Type} {x : Task (StateM Machine) α} {f : α → Task (StateM Machine) β} {s : Machine}

theorem Observes.usesConsole (h : Observes x) : UsesConsole x :=
  fun s => ⟨_, s.console, h.eq s⟩

/-- What holds of a machine whatever is on its console holds after a task that uses the console, if
it holds after what follows. -/
theorem UsesConsole.after_bind {P : Machine → Prop} (hx : UsesConsole x)
    (hs : ∀ console, P { s with console })
    (hf : ∀ a console, P (carryOut (f a) { s with console }).2) : P (carryOut (x >>= f) s).2 := by
  obtain ⟨result, console, hresult⟩ := hx s
  cases result with
  | error e =>
    rw [carryOut_bind_error hresult]
    exact hs console
  | ok a =>
    rw [carryOut_bind_ok hresult]
    exact hf a console

end Console

/-- A run leaves the files of all names but that of its output. -/
theorem runFile_keeps (connect : Chat.Config → Except (List Text) Chat.Transport) (shell : Table Text)
    (o : RunOptions) (s : Machine) {name : Text}
    (hother : Path.IsFileName (o.filename.getD (Instant.ofMillis s.time).fileName))
    (hne : o.filename.getD (Instant.ofMillis s.time).fileName ≠ name) :
    s.tree.Keeps name (carryOut (Command.runFile (hostWith connect) shell o) s).2.tree := by
  let P : Machine → Prop := fun after => s.tree.Keeps name after.tree
  have hrefl : ∀ console : Console, P { s with console } := fun _ => FileTree.Keeps.refl name s.tree
  have hinputs : ∀ script : Script, UsesConsole (Command.attempt .input
      (Inputs.collect (hostWith connect).ask script.requiredInputs o.vars o.noPrompt)) := by
    intro script s
    rw [carryOut_attempt, collect_eq]
    exact ⟨_, _, rfl⟩
  change P (carryOut (Command.runFile (hostWith connect) shell o) s).2
  unfold Command.runFile
  refine (observes_loadScript connect o.file).usesConsole.after_bind hrefl
    fun source console => ?_
  refine (observes_attempt fun _ => rfl).usesConsole.after_bind hrefl fun script console => ?_
  refine (observes_makeProvider connect shell o).usesConsole.after_bind hrefl
    fun provider console => ?_
  refine (hinputs script).after_bind hrefl fun supplied console => ?_
  rw [carryOut_bind_ok (carryOut_lift (outputName_eq connect o { s with console }))]
  obtain ⟨saved, tree, hsaves, hended⟩ := conclude_eq connect o.output
    (o.filename.getD (Instant.ofMillis s.time).fileName) (script.run supplied provider)
    { s with console }
  rw [hended]
  exact hsaves.keeps hother hne

/-- Outputs that are named after the time of their run. The dates in the names are those of the
Gregorian calendar. In years of four digits, a later time gives a greater name, and a run leaves the
output of a run at another time as it is, wherever it stands. -/
theorem default_outputs_ordered_and_kept :
    (Instant.civil 0 = (1970, 1, 1) ∧
      ∀ days, Instant.civil (days + 1) = Instant.nextDate (Instant.civil days)) ∧
    (∀ first second : Int, (Instant.ofMillis first).InFourDigits →
      (Instant.ofMillis second).InFourDigits → first < second →
      (Instant.ofMillis first).fileName < (Instant.ofMillis second).fileName) ∧
    ∀ (connect : Chat.Config → Except (List Text) Chat.Transport) (shell : Table Text)
      (o o' : RunOptions) (s s' : Machine),
      o.filename = none → o'.filename = none → s.time ≠ s'.time →
      (Instant.ofMillis s.time).InFourDigits → (Instant.ofMillis s'.time).InFourDigits →
      ∀ (place : FileTree.Place) (content : Bytes),
        s'.tree.read place (outputPath o s) = .ok content →
        (carryOut (Command.runFile (hostWith connect) shell o') s').2.tree.read place
          (outputPath o s) = .ok content := by
  refine ⟨⟨rfl, Instant.civil_succ⟩,
    fun first second hfirst hsecond h => Instant.fileName_lt_fileName h hfirst hsecond, ?_⟩
  intro connect shell o o' s s' hname hname' htime hs hs' place content hread
  have hnames : (Instant.ofMillis s'.time).fileName ≠ (Instant.ofMillis s.time).fileName := by
    intro heq
    rcases Int.lt_or_gt_of_ne htime with hlt | hlt
    · have hless := Instant.fileName_lt_fileName hlt hs hs'
      rw [heq] at hless
      exact List.lt_irrefl _ hless
    · have hless := Instant.fileName_lt_fileName hlt hs' hs
      rw [heq] at hless
      exact List.lt_irrefl _ hless
  have hkeeps : s'.tree.Keeps (Instant.ofMillis s.time).fileName
      (carryOut (Command.runFile (hostWith connect) shell o') s').2.tree := by
    apply runFile_keeps
    · rw [hname']
      exact (Instant.ofMillis s'.time).isFileName
    · rw [hname']
      exact hnames
  rw [outputPath, hname] at hread ⊢
  exact hkeeps.read_eq (Instant.ofMillis s.time).isFileName hread

def leapDayEnd : Int :=
  951868799999

def unnamed : RunOptions :=
  { withText with filename := none }

def onLeapDay : Machine :=
  { holding Script.selfReferring [] with time := leapDayEnd }

/-- The machine on the next day, with the output of a run at the end of the leap day. -/
def afterLeapDay : Machine :=
  { onLeapDay with
    tree := onLeapDay.tree ++ [(["out".toList], .directory),
      (["out".toList, (Instant.ofMillis leapDayEnd).fileName], .file (Utf8.encode "null".toList))]
    time := leapDayEnd + 1 }

theorem default_outputs_ordered_and_kept_leapDay :
    (Instant.ofMillis leapDayEnd).fileName = "response_2000-02-29T23:59:59.999Z.json".toList ∧
    (Instant.ofMillis (leapDayEnd + 1)).fileName = "response_2000-03-01T00:00:00.000Z.json".toList ∧
    (Instant.ofMillis leapDayEnd).fileName < (Instant.ofMillis (leapDayEnd + 1)).fileName ∧
    (Instant.ofMillis (-1)).fileName < (Instant.ofMillis 0).fileName ∧
    (carryOut (Command.runFile (hostWith fun _ => .ok Chat.offline) ∅ unnamed)
      afterLeapDay).2.tree.read afterLeapDay.place (outputPath unnamed onLeapDay) =
        .ok (Utf8.encode "null".toList) := by
  obtain ⟨-, hordered, hkept⟩ := default_outputs_ordered_and_kept
  have hfirst : (Instant.ofMillis leapDayEnd).InFourDigits := by decide
  have hsecond : (Instant.ofMillis (leapDayEnd + 1)).InFourDigits := by decide
  have hread : afterLeapDay.tree.read afterLeapDay.place (outputPath unnamed onLeapDay) =
      .ok (Utf8.encode "null".toList) := by
    rfl
  refine ⟨by decide, by decide, hordered _ _ hfirst hsecond (by decide),
    hordered _ _ (by decide) (by decide) (by decide), ?_⟩
  exact hkept (fun _ => .ok Chat.offline) ∅ unnamed unnamed onLeapDay afterLeapDay rfl rfl
    (by decide) hfirst hsecond _ _ hread

end Machine

end PromptChain
