import Mathlib.Data.List.Sort
import PromptChain.Proofs.DeclaredNames

/-! Trees of nodes mirror trees of actions. They have the same shape, and every node refers to the
names in the texts below it and to the names that it declares itself. Only a loop that carries steps,
at whatever depth, has no node. -/
namespace PromptChain

namespace Action

/-- Induction on an action through the actions that it carries. -/
@[elab_as_elim]
theorem induction {P : Action → Prop} (text : ∀ heading body, P (.text heading body))
    (steps : ∀ heading children, (∀ a ∈ children, P a) → P (.steps heading children))
    (a : Action) : P a := by
  cases a with
  | text heading body => exact text heading body
  | steps heading children =>
    exact steps heading children fun a ha => induction text steps a
termination_by sizeOf a
decreasing_by
  have hlt := List.sizeOf_lt_of_mem ha
  simp only [Action.steps.sizeOf_spec]
  omega

/-- An action stands in a tree: it is the tree, or it stands in one of the trees below. -/
inductive Within (part : Action) : Action → Prop where
  | self : Within part part
  | child {heading : Heading} {children : List Action} {a : Action} (ha : a ∈ children)
      (h : Within part a) : Within part (.steps heading children)

def HasLoopWithSteps (a : Action) : Prop :=
  ∃ heading children, heading.kind.isLoop = true ∧ Within (.steps heading children) a

/-- The name of a placeholder in some text of the tree. -/
def Mentions (a : Action) (name : Text) : Prop :=
  ∃ heading body, Within (.text heading body) a ∧ name ∈ body.placeholders

theorem within_text_iff {part : Action} {heading : Heading} {body : Text} :
    Within part (.text heading body) ↔ part = .text heading body := by
  constructor
  · intro h
    cases h
    rfl
  · rintro rfl
    exact .self

theorem within_steps_iff {part : Action} {heading : Heading} {children : List Action} :
    Within part (.steps heading children) ↔
      part = .steps heading children ∨ ∃ a ∈ children, Within part a := by
  constructor
  · intro h
    cases h with
    | self => exact Or.inl rfl
    | child ha h => exact Or.inr ⟨_, ha, h⟩
  · rintro (rfl | ⟨a, ha, h⟩)
    · exact .self
    · exact .child ha h

theorem not_hasLoopWithSteps_text (heading : Heading) (body : Text) :
    ¬(text heading body).HasLoopWithSteps := by
  rintro ⟨_, _, -, h⟩
  cases within_text_iff.1 h

theorem hasLoopWithSteps_steps_iff {heading : Heading} {children : List Action} :
    (steps heading children).HasLoopWithSteps ↔
      heading.kind.isLoop = true ∨ ∃ a ∈ children, a.HasLoopWithSteps := by
  constructor
  · rintro ⟨other, others, hloop, h⟩
    rcases within_steps_iff.1 h with heq | ⟨a, ha, h⟩
    · cases heq
      exact Or.inl hloop
    · exact Or.inr ⟨a, ha, other, others, hloop, h⟩
  · rintro (hloop | ⟨a, ha, other, others, hloop, h⟩)
    · exact ⟨heading, children, hloop, .self⟩
    · exact ⟨other, others, hloop, .child ha h⟩

theorem mentions_text_iff {heading : Heading} {body name : Text} :
    (text heading body).Mentions name ↔ name ∈ body.placeholders := by
  constructor
  · rintro ⟨_, _, h, hname⟩
    cases within_text_iff.1 h
    exact hname
  · intro hname
    exact ⟨heading, body, .self, hname⟩

theorem mentions_steps_iff {heading : Heading} {children : List Action} {name : Text} :
    (steps heading children).Mentions name ↔ ∃ a ∈ children, a.Mentions name := by
  constructor
  · rintro ⟨other, body, h, hname⟩
    rcases within_steps_iff.1 h with heq | ⟨a, ha, h⟩
    · cases heq
    · exact ⟨a, ha, other, body, h, hname⟩
  · rintro ⟨a, ha, other, body, h, hname⟩
    exact ⟨other, body, .child ha h, hname⟩

/-- The names that the node of an action refers to, in order and each once: those in the texts of the
tree and those that the action itself declares. -/
structure References (a : Action) (references : List Text) : Prop where
  sorted : references.Pairwise (· < ·)
  mem_iff : ∀ name, name ∈ references ↔ a.Mentions name ∨ name ∈ a.heading.declared

theorem References.unique {a : Action} {names names' : List Text} (h : a.References names)
    (h' : a.References names') : names = names' :=
  h.sorted.eq_of_mem_iff h'.sorted fun name => (h.mem_iff name).trans (h'.mem_iff name).symm

theorem references_nameSet {a : Action} {names : List Text}
    (h : ∀ name, name ∈ names ↔ a.Mentions name) :
    a.References (nameSet (names ++ a.heading.declared)) where
  sorted := pairwise_nameSet _
  mem_iff name := by rw [mem_nameSet, List.mem_append, h]

end Action

namespace Node

/-- A tree of nodes has the shape of a tree of actions, with the same headings and texts, and each
node refers to the names of its action. -/
inductive Mirrors : Action → Node → Prop where
  | leaf {heading : Heading} {references : List Text} {body : Text}
      (hnames : (Action.text heading body).References references) :
      Mirrors (.text heading body) (.leaf heading references body)
  | branch {heading : Heading} {references : List Text} {children : List Action}
      {nodes : List Node} (hnames : (Action.steps heading children).References references)
      (hnodes : List.Forall₂ Mirrors children nodes) :
      Mirrors (.steps heading children) (.branch heading references nodes)

theorem forall₂_unique {children : List Action} {nodes nodes' : List Node}
    (h : ∀ a ∈ children, ∀ {node node'}, Mirrors a node → Mirrors a node' → node = node')
    (hnodes : List.Forall₂ Mirrors children nodes) (hnodes' : List.Forall₂ Mirrors children nodes') :
    nodes = nodes' := by
  induction hnodes generalizing nodes' with
  | nil =>
    cases hnodes'
    rfl
  | cons hnode _ ih =>
    cases hnodes' with
    | cons hnode' hrest' =>
      rw [h _ List.mem_cons_self hnode hnode',
        ih (fun a ha => h a (List.mem_cons_of_mem _ ha)) hrest']

/-- An action has one mirror at most. -/
theorem Mirrors.unique {a : Action} {node node' : Node} (h : Mirrors a node)
    (h' : Mirrors a node') : node = node' := by
  induction a using Action.induction generalizing node node' with
  | text heading body =>
    cases h with
    | leaf hnames =>
      cases h' with
      | leaf hnames' => rw [hnames.unique hnames']
  | steps heading children ih =>
    cases h with
    | branch hnames hnodes =>
      cases h' with
      | branch hnames' hnodes' =>
        rw [hnames.unique hnames', forall₂_unique (fun a ha => ih a ha) hnodes hnodes']

theorem mem_textNamesOfAll {children : List Action} {nodes : List Node} {name : Text}
    (h : List.Forall₂ (fun a node => name ∈ textNames node ↔ a.Mentions name) children nodes) :
    name ∈ textNamesOfAll nodes ↔ ∃ a ∈ children, a.Mentions name := by
  induction h with
  | nil => simp [textNamesOfAll]
  | cons hnode _ ih => rw [textNamesOfAll, List.mem_append, hnode, ih, List.exists_mem_cons_iff]

theorem ofChildren_eq_ok_iff {step : Nat} {children : List Action} {nodes : List Node} :
    ofChildren step children = .ok nodes ↔
      List.Forall₂ (fun a node => ofAction step a = .ok node) children nodes := by
  induction children generalizing nodes with
  | nil => simp [ofChildren, eq_comm]
  | cons a children ih =>
    simp only [ofChildren, Outcome.bind_eq_ok_iff, Outcome.pure_eq_ok_iff]
    constructor
    · rintro ⟨node, hnode, rest, hrest, rfl⟩
      exact .cons hnode (ih.1 hrest)
    · intro h
      cases h with
      | cons hnode hrest => exact ⟨_, hnode, _, ih.2 hrest, rfl⟩

/-- What is built of an action that has no loop with steps: its mirror. The names in the texts of the
tree are carried along, since each level collects them anew. -/
structure BuiltOf (a : Action) (node : Node) : Prop where
  loops : ¬a.HasLoopWithSteps
  mirrors : Mirrors a node
  names : ∀ name, name ∈ textNames node ↔ a.Mentions name

theorem builtOf_steps {heading : Heading} {children : List Action} {nodes : List Node}
    (hloop : ¬heading.kind.isLoop = true) (h : List.Forall₂ BuiltOf children nodes) :
    BuiltOf (.steps heading children)
      (.branch heading (nameSet (textNamesOfAll nodes ++ heading.declared)) nodes) := by
  have hloops : ∀ a ∈ children, ¬a.HasLoopWithSteps :=
    ((List.forall₂_and_left _ _).1 (h.imp fun _ _ hb => ⟨hb.loops, hb⟩)).1
  have hnames : ∀ name, name ∈ textNamesOfAll nodes ↔
      (Action.steps heading children).Mentions name := by
    intro name
    rw [Action.mentions_steps_iff]
    exact mem_textNamesOfAll (h.imp fun _ _ hb => hb.names name)
  refine ⟨fun hsteps => ?_, ?_, hnames⟩
  · rcases Action.hasLoopWithSteps_steps_iff.1 hsteps with hroot | ⟨a, ha, hbelow⟩
    · exact hloop hroot
    · exact hloops a ha hbelow
  · exact .branch (Action.references_nameSet hnames) (h.imp fun _ _ hb => hb.mirrors)

theorem builtOf_of_ofAction {step : Nat} {a : Action} {node : Node}
    (h : ofAction step a = .ok node) : BuiltOf a node := by
  induction a using Action.induction generalizing node with
  | text heading body =>
    cases h
    have hnames : ∀ name, name ∈ body.placeholders ↔ (Action.text heading body).Mentions name :=
      fun _ => Action.mentions_text_iff.symm
    exact ⟨Action.not_hasLoopWithSteps_text heading body, .leaf (Action.references_nameSet hnames),
      hnames⟩
  | steps heading children ih =>
    unfold ofAction at h
    split_ifs at h with hloop
    simp only [Outcome.bind_eq_ok_iff, Outcome.pure_eq_ok_iff] at h
    obtain ⟨nodes, hnodes, rfl⟩ := h
    have hchildren : ∀ a ∈ children, ∀ node, ofAction step a = .ok node → BuiltOf a node :=
      fun a ha _ => ih a ha
    have hboth := (List.forall₂_and_left _ _).2 ⟨hchildren, ofChildren_eq_ok_iff.1 hnodes⟩
    exact builtOf_steps hloop (hboth.imp fun _ _ hb => hb.1 _ hb.2)

theorem error_of_ofChildren {step : Nat} {children : List Action} {e : LoopWithSteps}
    (h : ofChildren step children = .error e) : ∃ a ∈ children, ofAction step a = .error e := by
  induction children with
  | nil => cases h
  | cons a children ih =>
    simp only [ofChildren, Outcome.bind_eq_error_iff] at h
    rcases h with h | ⟨node, -, h | ⟨nodes, -, h⟩⟩
    · exact ⟨a, List.mem_cons_self, h⟩
    · obtain ⟨b, hb, h⟩ := ih h
      exact ⟨b, List.mem_cons_of_mem a hb, h⟩
    · cases h

theorem hasLoopWithSteps_of_ofAction {step : Nat} {a : Action} {e : LoopWithSteps}
    (h : ofAction step a = .error e) : a.HasLoopWithSteps ∧ e = ⟨step⟩ := by
  induction a using Action.induction with
  | text heading body => cases h
  | steps heading children ih =>
    unfold ofAction at h
    split_ifs at h with hloop
    · cases h
      exact ⟨Action.hasLoopWithSteps_steps_iff.2 (Or.inl hloop), rfl⟩
    · rcases Outcome.bind_eq_error_iff.1 h with h | ⟨nodes, -, h⟩
      · obtain ⟨a, ha, h⟩ := error_of_ofChildren h
        obtain ⟨hbelow, he⟩ := ih a ha h
        exact ⟨Action.hasLoopWithSteps_steps_iff.2 (Or.inr ⟨a, ha, hbelow⟩), he⟩
      · cases h

theorem ofAction_eq_error_iff {step : Nat} {a : Action} {e : LoopWithSteps} :
    ofAction step a = .error e ↔ a.HasLoopWithSteps ∧ e = ⟨step⟩ := by
  refine ⟨hasLoopWithSteps_of_ofAction, ?_⟩
  rintro ⟨hloop, rfl⟩
  cases h : ofAction step a with
  | error cause => rw [(hasLoopWithSteps_of_ofAction h).2]
  | ok node => exact absurd hloop (builtOf_of_ofAction h).loops

theorem ofAction_eq_ok_iff {step : Nat} {a : Action} {node : Node} :
    ofAction step a = .ok node ↔ ¬a.HasLoopWithSteps ∧ Mirrors a node := by
  refine ⟨fun h => ⟨(builtOf_of_ofAction h).loops, (builtOf_of_ofAction h).mirrors⟩, ?_⟩
  rintro ⟨hloops, hmirrors⟩
  cases h : ofAction step a with
  | error cause => exact absurd (hasLoopWithSteps_of_ofAction h).1 hloops
  | ok other => rw [(builtOf_of_ofAction h).mirrors.unique hmirrors]

theorem ofActionsFrom_eq_ok_iff {step : Nat} {actions : List Action} {nodes : List Node} :
    ofActionsFrom step actions = .ok nodes ↔
      (∀ a ∈ actions, ¬a.HasLoopWithSteps) ∧ List.Forall₂ Mirrors actions nodes := by
  rw [← List.forall₂_and_left]
  induction actions generalizing step nodes with
  | nil => simp [ofActionsFrom, eq_comm]
  | cons a actions ih =>
    simp only [ofActionsFrom, Outcome.bind_eq_ok_iff, Outcome.pure_eq_ok_iff]
    constructor
    · rintro ⟨node, hnode, rest, hrest, rfl⟩
      exact .cons (ofAction_eq_ok_iff.1 hnode) (ih.1 hrest)
    · intro h
      cases h with
      | cons hnode hrest => exact ⟨_, ofAction_eq_ok_iff.2 hnode, _, ih.2 hrest, rfl⟩

/-- The first action that has a loop with steps gives the error, under its own number. -/
theorem ofActionsFrom_eq_error_iff {step : Nat} {actions : List Action} {e : LoopWithSteps} :
    ofActionsFrom step actions = .error e ↔
      ∃ front a back, actions = front ++ a :: back ∧ (∀ b ∈ front, ¬b.HasLoopWithSteps) ∧
        a.HasLoopWithSteps ∧ e = ⟨step + front.length⟩ := by
  induction actions generalizing step with
  | nil => simp [ofActionsFrom]
  | cons first actions ih =>
    simp only [ofActionsFrom, Outcome.bind_eq_error_iff]
    constructor
    · rintro (h | ⟨node, hnode, h | ⟨nodes, -, h⟩⟩)
      · obtain ⟨hloop, he⟩ := ofAction_eq_error_iff.1 h
        exact ⟨[], first, actions, rfl, by simp, hloop, he⟩
      · obtain ⟨front, a, back, rfl, hfront, ha, rfl⟩ := ih.1 h
        refine ⟨first :: front, a, back, rfl, ?_, ha, ?_⟩
        · exact List.forall_mem_cons.2 ⟨(ofAction_eq_ok_iff.1 hnode).1, hfront⟩
        · rw [List.length_cons, Nat.add_right_comm, Nat.add_assoc]
      · cases h
    · rintro ⟨front, a, back, hsplit, hfront, ha, he⟩
      cases front with
      | nil =>
        obtain ⟨rfl, rfl⟩ := List.cons.inj hsplit
        exact Or.inl (ofAction_eq_error_iff.2 ⟨ha, he⟩)
      | cons b front =>
        obtain ⟨rfl, hrest⟩ := List.cons.inj hsplit
        obtain ⟨hfirst, hfront⟩ := List.forall_mem_cons.1 hfront
        rw [List.length_cons, ← Nat.add_assoc, Nat.add_right_comm] at he
        cases hnode : ofAction step first with
        | error cause => exact absurd (ofAction_eq_error_iff.1 hnode).1 hfirst
        | ok node =>
          have herror := ih.2 ⟨front, a, back, hrest, hfront, ha, he⟩
          exact Or.inr ⟨node, rfl, Or.inl herror⟩

theorem exists_ofActions_eq_error_iff {actions : List Action} :
    (∃ e, ofActions actions = .error e) ↔ ∃ a ∈ actions, a.HasLoopWithSteps := by
  constructor
  · rintro ⟨e, he⟩
    obtain ⟨front, a, back, rfl, -, ha, -⟩ := ofActionsFrom_eq_error_iff.1 he
    exact ⟨a, List.mem_append_right front List.mem_cons_self, ha⟩
  · rintro ⟨a, ha, hloop⟩
    cases h : ofActions actions with
    | error e => exact ⟨e, rfl⟩
    | ok nodes => exact absurd hloop ((ofActionsFrom_eq_ok_iff.1 h).1 a ha)

/-- Actions have nodes unless a loop with steps stands in one of their trees. The error then tells the
number of the first tree that has one. The nodes are the mirrors of the actions, in order. -/
theorem ofActions_mirrors (actions : List Action) :
    ((∃ e, ofActions actions = .error e) ↔ ∃ a ∈ actions, a.HasLoopWithSteps) ∧
    (∀ e, ofActions actions = .error e ↔
      ∃ front a back, actions = front ++ a :: back ∧ (∀ b ∈ front, ¬b.HasLoopWithSteps) ∧
        a.HasLoopWithSteps ∧ e = ⟨front.length + 1⟩) ∧
    (∀ e, ofActions actions = .error e →
      e.diagnostic.code = "AST_LOOP_BODY_INVALID".toList ∧ e.diagnostic.step = some e.step) ∧
    ∀ nodes, ofActions actions = .ok nodes ↔
      (∀ a ∈ actions, ¬a.HasLoopWithSteps) ∧ List.Forall₂ Mirrors actions nodes := by
  refine ⟨exists_ofActions_eq_error_iff, fun e => ?_, fun e _ => ⟨rfl, rfl⟩,
    fun _ => ofActionsFrom_eq_ok_iff⟩
  simp only [Nat.add_comm _ 1]
  exact ofActionsFrom_eq_error_iff

def declares (names : List Text) : Heading :=
  ⟨.default, names, ⟨true, false⟩⟩

/-- A tree of three levels, in which a name is declared below the root and stands in no text. -/
def threeLevels : Action :=
  .steps (declares ["top".toList])
    [.text (declares ["unused".toList]) "{{x}}".toList,
      .steps (declares []) [.text (declares []) "{{deep}} {{x}}".toList]]

def deepLoop : Action :=
  .steps (declares []) [.steps (declares []) [.steps ⟨.loop none true, [], ⟨true, false⟩⟩ []]]

theorem ofActions_threeLevels : ∃ nodes, ofActions [threeLevels] = .ok nodes ∧
    nodes.map references = [["deep".toList, "top".toList, "x".toList]] := by
  refine ⟨_, rfl, ?_⟩
  cbv

theorem hasLoopWithSteps_deepLoop : deepLoop.HasLoopWithSteps :=
  ⟨_, _, rfl, .child List.mem_cons_self (.child List.mem_cons_self .self)⟩

theorem ofActions_mirrors_threeLevels :
    (∃ nodes, ofActions [threeLevels] = .ok nodes ∧ List.Forall₂ Mirrors [threeLevels] nodes ∧
      nodes.map references = [["deep".toList, "top".toList, "x".toList]]) ∧
    ofActions [threeLevels, deepLoop, deepLoop] = .error ⟨2⟩ := by
  obtain ⟨nodes, hnodes, hnames⟩ := ofActions_threeLevels
  obtain ⟨-, -, -, hbuilt⟩ := ofActions_mirrors [threeLevels]
  obtain ⟨hloops, hmirrors⟩ := (hbuilt nodes).1 hnodes
  obtain ⟨-, hfirst, -, -⟩ := ofActions_mirrors [threeLevels, deepLoop, deepLoop]
  refine ⟨⟨nodes, hnodes, hmirrors, hnames⟩, (hfirst _).2 ?_⟩
  exact ⟨[threeLevels], deepLoop, [deepLoop], rfl, hloops, hasLoopWithSteps_deepLoop, rfl⟩

end Node

end PromptChain
