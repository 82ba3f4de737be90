import PromptChain.Command.Execute
import PromptChain.Machine
import PromptChain.Proofs.CollectedInputs
import PromptChain.Proofs.EncodedTexts
import PromptChain.Proofs.SavedEnvironment
import PromptChain.Proofs.Scope
import PromptChain.Proofs.WrittenFiles

/-! What the command that runs a script does to a machine: nothing is written before the script is
run, and after it one file is. -/
namespace PromptChain

open Command (Task attempt)

/-- What saving a file does to a tree: a directory is created and, if it is there then, a file is
written. -/
inductive FileTree.Saves (place : Place) (directory path : Path) (content : Bytes)
    (tree : FileTree) : Except SystemError Unit → FileTree → Prop where
  | noDirectory {e : SystemError} {after : FileTree}
      (h : tree.createDirectories place directory = (.error e, after)) :
      Saves place directory path content tree (.error e) after
  | noFile {e : SystemError} {after : FileTree}
      (hdirectory : tree.createDirectories place directory = (.ok (), after))
      (h : after.write place path content = .error e) :
      Saves place directory path content tree (.error e) after
  | file {between after : FileTree}
      (hdirectory : tree.createDirectories place directory = (.ok (), between))
      (h : between.write place path content = .ok after) :
      Saves place directory path content tree (.ok ()) after

namespace Machine

/-- The operations of a machine from which `connect` gives the ways to chat services. -/
def hostWith (connect : Chat.Config → Except (List Text) Chat.Transport) :
    Host (StateM Machine) :=
  { host with connect := fun config => pure (connect config) }

/-- What a task gives on a machine, and the machine after it. -/
def carryOut {α : Type} (x : Task (StateM Machine) α) (s : Machine) :
    Except CommandError α × Machine :=
  x.run s

section Tasks

variable {α β ε : Type} {x : Task (StateM Machine) α} {f : α → Task (StateM Machine) β}
  {s s' : Machine}

theorem bind_eq {y : StateM Machine α} {g : α → StateM Machine β} {a : α} (h : y s = (a, s')) :
    (y >>= g) s = g a s' := by
  change StateT.bind y g s = _
  rw [StateT.bind, h]
  rfl

theorem carryOut_bind_ok {a : α} (h : carryOut x s = (.ok a, s')) :
    carryOut (x >>= f) s = carryOut (f a) s' := by
  have hrun : x.run s = (.ok a, s') := h
  rw [carryOut, ExceptT.run_bind, bind_eq hrun]
  rfl

theorem carryOut_bind_error {e : CommandError} (h : carryOut x s = (.error e, s')) :
    carryOut (x >>= f) s = (.error e, s') := by
  have hrun : x.run s = (.error e, s') := h
  rw [carryOut, ExceptT.run_bind, bind_eq hrun]
  rfl

theorem carryOut_attempt (wrap : ε → CommandError) (y : StateM Machine (Except ε α))
    (s : Machine) : carryOut (attempt wrap y) s = ((y s).1.mapError wrap, (y s).2) :=
  rfl

theorem carryOut_lift {y : StateM Machine α} {a : α} (h : y s = (a, s')) :
    carryOut (liftM y : Task (StateM Machine) α) s = (.ok a, s') := by
  change ((.ok (y s).1, (y s).2) : Except CommandError α × Machine) = _
  rw [h]

/-- A task that changes nothing. -/
def Observes (x : Task (StateM Machine) α) : Prop :=
  ∀ s, (carryOut x s).2 = s

theorem Observes.eq (h : Observes x) (s : Machine) : carryOut x s = ((carryOut x s).1, s) :=
  Prod.ext rfl (h s)

theorem observes_bind (hx : Observes x) (hf : ∀ a, Observes (f a)) : Observes (x >>= f) := by
  intro s
  have hfirst := hx.eq s
  cases hresult : (carryOut x s).1 with
  | error e =>
    rw [hresult] at hfirst
    rw [carryOut_bind_error hfirst]
  | ok a =>
    rw [hresult] at hfirst
    rw [carryOut_bind_ok hfirst]
    exact hf a s

theorem observes_view (g : Machine → α) : Observes (liftM (view g) : Task (StateM Machine) α) :=
  fun _ => rfl

theorem observes_attempt {wrap : ε → CommandError} {y : StateM Machine (Except ε α)}
    (h : ∀ s, (y s).2 = s) : Observes (attempt wrap y) :=
  h

end Tasks

section Stages

variable (connect : Chat.Config → Except (List Text) Chat.Transport) (shell : Table Text)
  (o : RunOptions) (s : Machine)

theorem observes_resolve (raw : Text) : Observes (Command.resolve (hostWith connect) raw) := by
  unfold Command.resolve
  split
  · exact fun _ => rfl
  · exact observes_bind (observes_attempt fun _ => rfl) fun _ _ => rfl

theorem observes_readText (path : Path) (s : Machine) :
    (Command.readText (hostWith connect) path s).2 = s := by
  have hread : (hostWith connect).read path s = (s.tree.read s.place path, s) := rfl
  rw [Command.readText, bind_eq hread]
  cases s.tree.read s.place path with
  | error e => rfl
  | ok bytes =>
    dsimp only
    cases Utf8.decode? bytes <;> rfl

theorem observes_loadScript (file : Text) :
    Observes (Command.loadScript (hostWith connect) file) := by
  unfold Command.loadScript
  refine observes_bind (observes_resolve connect file) fun path => ?_
  refine observes_bind (observes_view _) fun present => ?_
  dsimp only
  split
  · exact fun _ => rfl
  · split
    · exact fun _ => rfl
    · exact observes_attempt (observes_readText connect path)

/-- A text that stands in a file at an absolute path is loaded. -/
theorem loadScript_of_read {file source : Text} (habsolute : Path.isAbsolute file = true)
    (hfile : s.tree.isFile s.place file = true) (hscript : Command.isScript file = true)
    (hread : s.tree.read s.place file = .ok (Utf8.encode source)) :
    carryOut (Command.loadScript (hostWith connect) file) s = (.ok source, s) := by
  have hresolve : Command.resolve (hostWith connect) file = pure file := if_pos habsolute
  have hpresent : (hostWith connect).isFile file s = (true, s) := by
    change (s.tree.isFile s.place file, s) = _
    rw [hfile]
  have hbytes : (hostWith connect).read file s = (.ok (Utf8.encode source), s) := by
    change (s.tree.read s.place file, s) = _
    rw [hread]
  have htext : Command.readText (hostWith connect) file s = (.ok source, s) := by
    rw [Command.readText, bind_eq hbytes]
    dsimp only
    rw [Utf8.decode?_encode]
    rfl
  rw [Command.loadScript, hresolve, pure_bind, carryOut_bind_ok (carryOut_lift hpresent), hscript]
  change carryOut (attempt .unreadable _) s = _
  rw [carryOut_attempt, htext]
  rfl

theorem observes_makeProvider : Observes (Command.makeProvider (hostWith connect) shell o) := by
  unfold Command.makeProvider
  split
  · exact fun _ => rfl
  · refine observes_bind (observes_attempt fun _ => rfl) fun _ => ?_
    exact observes_bind (observes_attempt fun _ => rfl) fun _ _ => rfl

/-- Asking on a machine is asking on its console. -/
theorem askAll_eq (names : List Text) (values : Table Value) :
    Inputs.askAll Machine.ask names values s =
      ((Inputs.askAll Console.ask names values s.console).1,
        { s with console := (Inputs.askAll Console.ask names values s.console).2 }) := by
  induction names generalizing values s with
  | nil => rfl
  | cons name names ih =>
    have hline : (Machine.ask (Inputs.question name) s).1 =
        (Console.ask (Inputs.question name) s.console).1 := rfl
    have hrest : (Machine.ask (Inputs.question name) s).2 =
        { s with console := (Console.ask (Inputs.question name) s.console).2 } := rfl
    rw [Inputs.askAll_cons, Inputs.askAll_cons, hline, hrest]
    cases Inputs.answer name (Console.ask (Inputs.question name) s.console).1 with
    | error e => rfl
    | ok value => exact ih _ _

theorem collect_eq (required : List Text) :
    Inputs.collect (hostWith connect).ask required o.vars o.noPrompt s =
      ((Inputs.collect Console.ask required o.vars o.noPrompt s.console).1,
        { s with
          console := (Inputs.collect Console.ask required o.vars o.noPrompt s.console).2 }) := by
  unfold Inputs.collect
  cases Inputs.assignments o.vars ∅ with
  | error e => rfl
  | ok values =>
    dsimp only
    split
    · rfl
    · split
      · rfl
      · exact askAll_eq s _ values

theorem outputName_eq : Command.outputName (hostWith connect) o s =
    (o.filename.getD (Instant.ofMillis s.time).fileName, s) := by
  unfold Command.outputName
  cases o.filename <;> rfl

theorem createDirectories_eq {directory : Path} {result : Except SystemError Unit}
    {tree : FileTree} (h : s.tree.createDirectories s.place directory = (result, tree)) :
    (hostWith connect).createDirectories directory s = (result, { s with tree }) := by
  change Machine.createDirectories directory s = _
  rw [Machine.createDirectories, h]

theorem write_ok {path : Path} {content : Bytes} {tree : FileTree}
    (h : s.tree.write s.place path content = .ok tree) :
    (hostWith connect).write path content s = (.ok (), { s with tree }) := by
  change Machine.write path content s = _
  rw [Machine.write, h]

theorem write_error {path : Path} {content : Bytes} {e : SystemError}
    (h : s.tree.write s.place path content = .error e) :
    (hostWith connect).write path content s = (.error e, s) := by
  change Machine.write path content s = _
  rw [Machine.write, h]

/-- Saving changes nothing but the tree. -/
theorem save_eq (directory : Path) (filename : Text) (e : Environment) :
    ∃ saved tree,
      FileTree.Saves s.place directory (Path.join directory filename)
        (Utf8.encode e.toJson.pretty) s.tree saved tree ∧
      Command.save (hostWith connect) directory filename e s =
        (saved.map fun _ => Path.join directory filename, { s with tree }) := by
  cases hdirectory : s.tree.createDirectories s.place directory with
  | mk result between =>
    rw [Command.save, bind_eq (createDirectories_eq connect s hdirectory)]
    cases result with
    | error e => exact ⟨_, _, .noDirectory hdirectory, rfl⟩
    | ok =>
      dsimp only
      cases hfile : between.write s.place (Path.join directory filename)
        (Utf8.encode e.toJson.pretty) with
      | error e =>
        rw [bind_eq (write_error connect { s with tree := between } hfile)]
        exact ⟨_, _, .noFile hdirectory hfile, rfl⟩
      | ok tree =>
        rw [bind_eq (write_ok connect { s with tree := between } hfile)]
        exact ⟨_, _, .file hdirectory hfile, rfl⟩

end Stages

/-- The path of the file that a run is saved in, named after the time if no name is given. -/
def outputPath (o : RunOptions) (s : Machine) : Path :=
  Path.join o.output (o.filename.getD (Instant.ofMillis s.time).fileName)

/-- How a command ends after a run on a machine, where `saved` says whether the run's environment
was saved, `tree` is the tree after that, and `members` are what was to be saved. -/
structure Concludes (o : RunOptions) (r : Run) (s : Machine) (saved : Except SystemError Unit)
    (tree : FileTree) (members : List (Text × Json))
    (ended : Except CommandError Text × Machine) : Prop where
  /-- One directory is created, and one file is written. -/
  saves : FileTree.Saves s.place o.output (outputPath o s)
    (Utf8.encode (Json.object members).pretty) s.tree saved tree
  /-- Nothing else changes. -/
  after : ended.2 = { s with tree }
  /-- What is written is there, whether the run failed or not. -/
  held : saved = .ok () →
    tree.read s.place (outputPath o s) = .ok (Utf8.encode (Json.object members).pretty)
  /-- It is the environment of the run. -/
  environment : r.environment.toJson = .object members
  /-- Each key of it stands once. -/
  nodup : (members.map Prod.fst).Nodup
  /-- A failure of the run is told, whether it was saved or not. -/
  failed : ∀ f, r.failure = some f → ended.1 = .error (.run f)
  unsaved : ∀ e, r.failure = none → saved = .error e → ended.1 = .error (.save e)
  /-- Otherwise the path of the file and the number of its keys are told. -/
  succeeded : r.failure = none → saved = .ok () →
    ended.1 = .ok ("RESULT:OK\nOUTPUT:".toList ++ outputPath o s ++ "\nKEYS:".toList ++
      Text.ofNat members.length ++ ['\n'])

/-- The members of an environment in JSON have its names. -/
theorem keys_of_toJson {e : Environment} {members : List (Text × Json)}
    (h : e.toJson = .object members) : members.map Prod.fst = e.entries.map Prod.fst := by
  cases h
  rw [Value.membersWith_eq, List.map_map]
  rfl

theorem runReport_eq (path : Path) (keys : Nat) :
    Command.runReport path keys = "RESULT:OK\nOUTPUT:".toList ++ path ++ "\nKEYS:".toList ++
      Text.ofNat keys ++ ['\n'] := by
  simp [Command.runReport, reportLine]

theorem conclude_eq (connect : Chat.Config → Except (List Text) Chat.Transport) (directory : Path)
    (filename : Text) (r : Run) (s : Machine) :
    ∃ saved tree,
      FileTree.Saves s.place directory (Path.join directory filename)
        (Utf8.encode r.environment.toJson.pretty) s.tree saved tree ∧
      carryOut (Command.conclude (hostWith connect) directory filename r) s =
        (match r.failure, saved with
          | some f, _ => .error (.run f)
          | none, .error e => .error (.save e)
          | none, .ok () =>
            .ok (Command.runReport (Path.join directory filename) r.environment.entries.length),
        { s with tree }) := by
  obtain ⟨saved, tree, hsaves, hsave⟩ := save_eq connect s directory filename r.environment
  refine ⟨saved, tree, hsaves, ?_⟩
  rw [Command.conclude, carryOut_bind_ok (carryOut_lift hsave)]
  cases r.failure with
  | some f => rfl
  | none => cases saved <;> rfl

theorem exists_concludes (connect : Chat.Config → Except (List Text) Chat.Transport) (o : RunOptions)
    (r : Run) (s : Machine) :
    ∃ saved tree members, Concludes o r s saved tree members
      (carryOut (Command.conclude (hostWith connect) o.output
        (o.filename.getD (Instant.ofMillis s.time).fileName) r) s) := by
  obtain ⟨members, hmembers⟩ : ∃ members, r.environment.toJson = .object members := ⟨_, rfl⟩
  have hkeys := keys_of_toJson hmembers
  obtain ⟨saved, tree, hsaves, hended⟩ := conclude_eq connect o.output
    (o.filename.getD (Instant.ofMillis s.time).fileName) r s
  rw [hmembers] at hsaves
  rw [hended]
  refine ⟨saved, tree, members, hsaves, rfl, ?_, hmembers, ?_, ?_, ?_, ?_⟩
  · rintro rfl
    cases hsaves with
    | file hdirectory hfile => exact FileTree.read_of_write hfile
  · rw [hkeys]
    exact r.environment.sorted.nodup_keys
  · intro f hf
    rw [hf]
  · rintro e hf rfl
    rw [hf]
  · rintro hf rfl
    have hlength : members.length = r.environment.entries.length := by
      simpa using congrArg List.length hkeys
    rw [hf, hlength, ← runReport_eq]
    rfl

/-- The command that runs a script writes once, and only after a run. If the script cannot be loaded
or compiled, no provider can be had, or inputs are missing, then that is told and the tree of files
stays as it is; before the inputs are asked for, so does the console. -/
theorem runFile_saves_once (connect : Chat.Config → Except (List Text) Chat.Transport)
    (shell : Table Text) (o : RunOptions) (s : Machine) :
    let host := hostWith connect
    let ended := carryOut (Command.runFile host shell o) s
    (∀ e, (carryOut (Command.loadScript host o.file) s).1 = .error e → ended = (.error e, s)) ∧
    ∀ source, (carryOut (Command.loadScript host o.file) s).1 = .ok source →
    (∀ e, Script.compile source = .error e → ended = (.error (.compile e), s)) ∧
    ∀ script, Script.compile source = .ok script →
    (∀ e, (carryOut (Command.makeProvider host shell o) s).1 = .error e → ended = (.error e, s)) ∧
    ∀ provider, (carryOut (Command.makeProvider host shell o) s).1 = .ok provider →
    ∀ inputs console,
      Inputs.collect Console.ask script.requiredInputs o.vars o.noPrompt s.console =
        (inputs, console) →
    (∀ e, inputs = .error e → ended = (.error (.input e), { s with console })) ∧
    ∀ supplied, inputs = .ok supplied →
      ∃ saved tree members,
        Concludes o (script.run supplied provider) { s with console } saved tree members ended := by
  intro host ended
  have hload := (observes_loadScript connect o.file).eq s
  have hprovider := (observes_makeProvider connect shell o).eq s
  refine ⟨fun e he => ?_, fun source hsource => ?_⟩
  · rw [he] at hload
    exact carryOut_bind_error hload
  rw [hsource] at hload
  have hcompile : ∀ result, Script.compile source = result →
      carryOut (attempt .compile (pure (Script.compile source)) : Task (StateM Machine) Script) s =
        (result.mapError .compile, s) := by
    rintro _ rfl
    rfl
  refine ⟨fun e he => ?_, fun script hscript => ?_⟩
  · exact (carryOut_bind_ok hload).trans (carryOut_bind_error (hcompile _ he))
  have hcompiled : ended = carryOut (do
      let provider ← Command.makeProvider host shell o
      let supplied ← attempt .input
        (Inputs.collect host.ask script.requiredInputs o.vars o.noPrompt)
      let filename ← (Command.outputName host o : StateM Machine _)
      Command.conclude host o.output filename (script.run supplied provider)) s :=
    (carryOut_bind_ok hload).trans (carryOut_bind_ok (hcompile _ hscript))
  rw [hcompiled]
  refine ⟨fun e he => ?_, fun provider hp inputs console hcollect => ?_⟩
  · rw [he] at hprovider
    exact carryOut_bind_error hprovider
  rw [hp] at hprovider
  have hinputs : carryOut (attempt .input
      (Inputs.collect host.ask script.requiredInputs o.vars o.noPrompt)) s =
        (inputs.mapError .input, { s with console }) := by
    rw [carryOut_attempt, collect_eq, hcollect]
  rw [carryOut_bind_ok hprovider]
  refine ⟨?_, ?_⟩
  · rintro e rfl
    exact carryOut_bind_error hinputs
  · rintro supplied rfl
    rw [carryOut_bind_ok hinputs, carryOut_bind_ok (carryOut_lift (outputName_eq connect o _))]
    exact exists_concludes connect o (script.run supplied provider) _

/-- A machine that holds a script, with lines typed on its console. -/
def holding (script : Script) (typed : Text) : Machine where
  place := .location []
  tree := [(["a.heroml".toList], .file (Utf8.encode script.source))]
  console := ⟨Utf8.encode typed, []⟩
  shell := ∅
  time := 0

def withText : RunOptions where
  file := "/a.heroml".toList
  output := "/out".toList
  filename := some "r.json".toList
  vars := ["x=a".toList]
  provider := .echo
  model := none
  timeoutSeconds := 120
  noPrompt := true

def withTyped : RunOptions :=
  { withText with vars := [], noPrompt := false }

theorem loadScript_holding (connect : Chat.Config → Except (List Text) Chat.Transport)
    (script : Script) (typed : Text) :
    (carryOut (Command.loadScript (hostWith connect) withText.file) (holding script typed)).1 =
      .ok script.source := by
  rw [loadScript_of_read connect (holding script typed) rfl rfl rfl rfl]

/-- On such a machine an output can be saved. -/
theorem saved_holding {script : Script} {content : Bytes} {saved : Except SystemError Unit}
    {tree : FileTree} (h : FileTree.Saves (.location []) "/out".toList "/out/r.json".toList content
      (holding script []).tree saved tree) : saved = .ok () := by
  have hdirectory : (holding script []).tree.createDirectories (.location []) "/out".toList =
      (.ok (), (holding script []).tree ++ [(["out".toList], .directory)]) := rfl
  have hwrite : ∃ after, FileTree.write (.location []) "/out/r.json".toList content
      ((holding script []).tree ++ [(["out".toList], .directory)]) = .ok after := ⟨_, rfl⟩
  cases h with
  | noDirectory h => cases hdirectory.symm.trans h
  | noFile h hfile =>
    cases hdirectory.symm.trans h
    obtain ⟨after, hafter⟩ := hwrite
    cases hafter.symm.trans hfile
  | file => rfl

/-- A text for the only input of a script, which has to be a list. -/
def assignedValues : Table Value :=
  .ofList [("x".toList, .string "a".toList)]

/-- A text for each input of a script whose inputs cannot be assigned. -/
def typedValues : Table Value :=
  .ofList [("".toList, .string "a".toList), (" a".toList, .string "a".toList),
    ("a=b".toList, .string "a".toList)]

theorem collect_typed :
    Inputs.collect Console.ask Script.oddlyNamed.requiredInputs withTyped.vars withTyped.noPrompt
      (holding Script.oddlyNamed "a\na\na\n".toList).console =
        (.ok typedValues, ⟨[], Script.oddlyNamed.requiredInputs.flatMap Inputs.question⟩) := by
  have hunassigned : Inputs.unassigned Script.oddlyNamed.requiredInputs withTyped.vars =
      Script.oddlyNamed.requiredInputs := by
    rw [Script.requiredInputs_oddlyNamed]
    rfl
  let raw : Text → Text := fun _ => "a".toList
  have htypable : ∀ name ∈ Script.oddlyNamed.requiredInputs, Inputs.Typable (raw name) :=
    fun _ _ => ⟨by decide, by decide⟩
  refine Inputs.collect_eq_ok_iff.2 ⟨∅, rfl, nofun, ?_⟩
  rw [Script.requiredInputs_oddlyNamed] at hunassigned htypable ⊢
  rw [hunassigned]
  exact Inputs.askAll_typed htypable ∅ [] []

theorem failure_run_typedValues : (Script.oddlyNamed.run typedValues .echo).failure = none := by
  decide +kernel

theorem length_run_typedValues :
    (Script.oddlyNamed.run typedValues .echo).environment.entries.length = 4 := by
  decide +kernel

/-- A run that fails and is saved, and a run that succeeds. -/
theorem runFile_saves_once_twice :
    let host := hostWith fun _ => .ok Chat.offline
    (Script.compile Script.selfReferring.source = .ok Script.selfReferring ∧
      (Script.selfReferring.run assignedValues .echo).failure.isSome = true ∧
      ∃ tree members,
        Concludes withText (Script.selfReferring.run assignedValues .echo)
          (holding Script.selfReferring []) (.ok ()) tree members
          (carryOut (Command.runFile host ∅ withText) (holding Script.selfReferring []))) ∧
    Script.compile Script.oddlyNamed.source = .ok Script.oddlyNamed ∧
      (Script.oddlyNamed.run typedValues .echo).failure = none ∧
      (carryOut (Command.runFile host ∅ withTyped)
        (holding Script.oddlyNamed "a\na\na\n".toList)).1 =
          .ok "RESULT:OK\nOUTPUT:/out/r.json\nKEYS:4\n".toList := by
  intro host
  refine ⟨⟨Script.compile_selfReferring, rfl, ?_⟩, Script.compile_oddlyNamed,
    failure_run_typedValues, ?_⟩
  · obtain ⟨-, hloaded⟩ := runFile_saves_once (fun _ => .ok Chat.offline) ∅ withText
      (holding Script.selfReferring [])
    obtain ⟨-, hcompiled⟩ := hloaded _ (loadScript_holding _ _ _)
    obtain ⟨-, hprovided⟩ := hcompiled _ Script.compile_selfReferring
    obtain ⟨-, hcollected⟩ := hprovided .echo rfl (.ok assignedValues) _ rfl
    obtain ⟨saved, tree, members, hconcludes⟩ := hcollected assignedValues rfl
    rw [saved_holding hconcludes.saves] at hconcludes
    exact ⟨tree, members, hconcludes⟩
  · obtain ⟨-, hloaded⟩ := runFile_saves_once (fun _ => .ok Chat.offline) ∅ withTyped
      (holding Script.oddlyNamed "a\na\na\n".toList)
    obtain ⟨-, hcompiled⟩ := hloaded _ (loadScript_holding _ _ _)
    obtain ⟨-, hprovided⟩ := hcompiled _ Script.compile_oddlyNamed
    obtain ⟨-, hcollected⟩ := hprovided .echo rfl _ _ collect_typed
    obtain ⟨saved, tree, members, hconcludes⟩ := hcollected typedValues rfl
    have hsaved : saved = .ok () := saved_holding hconcludes.saves
    have hlength : members.length = 4 := by
      rw [← List.length_map, keys_of_toJson hconcludes.environment, List.length_map,
        length_run_typedValues]
    rw [hconcludes.succeeded failure_run_typedValues hsaved, hlength]
    rfl

end Machine

end PromptChain
