import PromptChain.Inputs
import PromptChain.Proofs.DeclaredNames
import PromptChain.Proofs.InitialValues

/-! Assignments on the command line: which names they can give values to, and so for which scripts
all inputs can be given without asking. -/
namespace PromptChain

namespace Inputs

/-- A name that an assignment can give a value to: it is not empty, it has no blanks at its ends, and
no equals sign stands in it. -/
def Assignable (name : Text) : Prop :=
  name ≠ [] ∧ name.trim = name ∧ '=' ∉ name

/-- An assignment is cut at its first equals sign. -/
theorem assignment_append {front : Text} (h : '=' ∉ front) (text : Text) :
    assignment (front ++ '=' :: text) =
      if front.trim.isEmpty then .error (.emptyName (front ++ '=' :: text))
      else .ok (front.trim, Value.ofInput text) := by
  have hfront : ∀ c ∈ front, (c != '=') = true := by
    intro c hc
    rw [bne_iff_ne]
    rintro rfl
    exact h hc
  have hdrop : (front ++ '=' :: text).dropWhile (· != '=') = '=' :: text := by
    rw [List.dropWhile_append_of_pos hfront]
    rfl
  have htake : (front ++ '=' :: text).takeWhile (· != '=') = front := by
    rw [List.takeWhile_append_of_pos hfront]
    exact List.append_nil front
  unfold assignment
  rw [hdrop, htake]

theorem assignment_of_notMem {raw : Text} (h : '=' ∉ raw) :
    assignment raw = .error (.notAssignment raw) := by
  have hdrop : raw.dropWhile (· != '=') = [] := by
    rw [List.dropWhile_eq_nil_iff]
    intro c hc
    rw [bne_iff_ne]
    rintro rfl
    exact h hc
  unfold assignment
  rw [hdrop]

theorem assignable_of_assignment {raw name : Text} {value : Value}
    (h : assignment raw = .ok (name, value)) : Assignable name := by
  by_cases hraw : '=' ∈ raw
  · obtain ⟨front, text, rfl, hfront⟩ := List.eq_append_cons_of_mem hraw
    rw [assignment_append hfront] at h
    split_ifs at h with hempty
    cases h
    refine ⟨fun hnil => hempty (List.isEmpty_iff.2 hnil), Text.trim_trim front, fun hequals => ?_⟩
    exact hfront ((Text.isInfix_trim front).subset hequals)
  · rw [assignment_of_notMem hraw] at h
    cases h

theorem Assignable.assignment_eq {name : Text} (h : Assignable name) (text : Text) :
    assignment (name ++ '=' :: text) = .ok (name, Value.ofInput text) := by
  obtain ⟨hne, htrim, hequals⟩ := h
  rw [assignment_append hequals, htrim, if_neg (by simpa using hne)]

def gives (name raw : Text) : Bool :=
  match assignment raw with
  | .ok (given, _) => given == name
  | .error _ => false

theorem gives_iff {name raw : Text} :
    gives name raw = true ↔ ∃ value, assignment raw = .ok (name, value) := by
  unfold gives
  cases assignment raw with
  | error e => simp
  | ok entry =>
    obtain ⟨given, value⟩ := entry
    simp

theorem has_of_assignments {vars : List Text} {values result : Table Value}
    (h : assignments vars values = .ok result) (name : Text) :
    result.has name = true ↔ values.has name = true ∨ vars.any (gives name) = true := by
  induction vars generalizing values with
  | nil =>
    cases h
    simp
  | cons raw vars ih =>
    simp only [assignments, Outcome.bind_eq_ok_iff] at h
    obtain ⟨⟨given, value⟩, hraw, h⟩ := h
    have hgives : gives name raw = true ↔ name = given := by
      rw [gives, hraw]
      exact beq_iff_eq.trans eq_comm
    rw [ih h, Table.has_insert, List.any_cons, Bool.or_eq_true, hgives]
    tauto

def assign (value : Text → Value) (names : List Text) (values : Table Value) : Table Value :=
  names.foldl (fun values name => values.insert name (value name)) values

theorem assignments_eq {names : List Text} (h : ∀ name ∈ names, Assignable name)
    (raw : Text → Text) (values : Table Value) :
    assignments (names.map fun name => name ++ '=' :: raw name) values =
      .ok (assign (fun name => Value.ofInput (raw name)) names values) := by
  induction names generalizing values with
  | nil => rfl
  | cons name names ih =>
    have hname := (h name List.mem_cons_self).assignment_eq (raw name)
    rw [List.map_cons, assignments, hname]
    exact ih (fun other ho => h other (List.mem_cons_of_mem name ho)) _

/-- The required names that no assignment gives a value to. -/
def unassigned (required vars : List Text) : List Text :=
  required.filter fun name => !vars.any (gives name)

theorem missingInputs_of_assignments {required vars : List Text} {values : Table Value}
    (h : assignments vars ∅ = .ok values) :
    Script.missingInputs required values = unassigned required vars := by
  apply List.filter_congr
  intro name _
  have hhas := has_of_assignments h name
  rw [show Table.has name (∅ : Table Value) = false from rfl, Bool.false_eq_true, false_or] at hhas
  rw [Bool.eq_iff_iff.2 hhas]

/-- Inputs are collected by taking the assignments and then asking for the names that they leave. -/
theorem collect_eq_ok_iff {σ : Type} {ask : Text → StateM σ Bytes} {required vars : List Text}
    {noPrompt : Bool} {values : Table Value} {before after : σ} :
    collect ask required vars noPrompt before = (.ok values, after) ↔
      ∃ given, assignments vars ∅ = .ok given ∧
        (noPrompt = true → unassigned required vars = []) ∧
          askAll ask (unassigned required vars) given before = (.ok values, after) := by
  unfold collect
  cases hgiven : assignments vars ∅ with
  | error e =>
    constructor
    · intro h
      cases h
    · rintro ⟨given, h, -⟩
      cases h
  | ok given =>
    dsimp only
    rw [missingInputs_of_assignments hgiven]
    simp only [Except.ok.injEq, exists_eq_left']
    -- With no name left, asking does nothing, and so it does not matter whether it is allowed.
    cases hmissing : unassigned required vars with
    | nil => simp [askAll]
    | cons name names =>
      cases noPrompt with
      | true =>
        constructor
        · intro h
          cases h
        · rintro ⟨h, -⟩
          cases h rfl
      | false => simp

theorem unassigned_eq_nil_iff {required vars : List Text} :
    unassigned required vars = [] ↔ ∀ name ∈ required, ∃ raw ∈ vars, gives name raw = true := by
  rw [unassigned, List.filter_eq_nil_iff]
  simp only [Bool.not_eq_true, Bool.not_eq_false', List.any_eq_true]

/-- Inputs can be had without asking exactly if all their names can be assigned. -/
theorem exists_collect_noPrompt_iff {required : List Text} :
    (∃ vars values, ∀ console,
      collect Console.ask required vars true console = (.ok values, console)) ↔
      ∀ name ∈ required, Assignable name := by
  constructor
  · rintro ⟨vars, values, h⟩ name hname
    obtain ⟨given, -, hnone, -⟩ := collect_eq_ok_iff.1 (h ⟨[], []⟩)
    obtain ⟨raw, -, hgives⟩ := unassigned_eq_nil_iff.1 (hnone rfl) name hname
    obtain ⟨value, hraw⟩ := gives_iff.1 hgives
    exact assignable_of_assignment hraw
  · intro h
    have hgiven := assignments_eq h (fun _ => []) ∅
    have hnone : unassigned required (required.map fun name => name ++ ['=']) = [] := by
      refine unassigned_eq_nil_iff.2 fun name hname => ?_
      exact ⟨_, List.mem_map_of_mem hname, gives_iff.2 ⟨_, (h name hname).assignment_eq []⟩⟩
    refine ⟨required.map fun name => name ++ ['='], assign (fun _ => Value.ofInput []) required ∅,
      fun console => ?_⟩
    refine collect_eq_ok_iff.2 ⟨_, hgiven, fun _ => hnone, ?_⟩
    rw [hnone]
    rfl

end Inputs

namespace Script

/-- A script requires the names of its first step's placeholders, apart from those that refer to
outputs. -/
theorem mem_requiredInputs_iff {table : List Directive} {source : Text} {s : Script}
    (h : compileWith table source = .ok s) :
    ∃ first rest, s.steps = first :: rest ∧ ∀ name, name ∈ s.requiredInputs ↔
      name ∈ first.text.placeholders ∧ Step.isReference name = false := by
  obtain ⟨-, hsteps, hactions, -, hnodes⟩ := ofExpanded_eq_ok_iff.1 h
  cases hsplit : s.steps with
  | nil => exact absurd (hsteps.symm.trans hsplit) (Step.split_ne_nil _)
  | cons first rest =>
    rw [hsplit, Action.ofSteps, List.mapM_cons] at hactions
    obtain ⟨a, ha, hmore⟩ := Outcome.bind_eq_ok_iff.1 hactions
    obtain ⟨others, -, hpure⟩ := Outcome.bind_eq_ok_iff.1 hmore
    rw [← Outcome.pure_eq_ok_iff.1 hpure, Node.ofActions, Node.ofActionsFrom] at hnodes
    simp only [Outcome.bind_eq_ok_iff, Outcome.pure_eq_ok_iff] at hnodes
    obtain ⟨node, hnode, nodes, -, heq⟩ := hnodes
    obtain ⟨kind, body, rfl, -⟩ := Step.action_eq_ok ha
    have hdeclared : s.declared = first.text.declared := by
      rw [declared, ← heq]
      exact congrArg Heading.declared (Node.heading_of_ofAction hnode)
    refine ⟨first, rest, rfl, fun name => ?_⟩
    rw [requiredInputs_eq, hdeclared, List.mem_filter, Text.declared, List.mem_eraseDups,
      Bool.not_eq_true']

/-- The inputs of a script that assignments can give values to are those whose names are not empty,
have no blanks at their ends and hold no equals sign. A script can be run without asking exactly if
all its inputs are such. -/
theorem inputs_assignable_iff {source : Text} {s : Script} (h : compile source = .ok s) :
    (∃ first rest, s.steps = first :: rest ∧ ∀ name, name ∈ s.requiredInputs ↔
      name ∈ first.text.placeholders ∧ Step.isReference name = false) ∧
    (∀ name ∈ s.requiredInputs,
      ((∃ raw value, Inputs.assignment raw = .ok (name, value)) ↔ Inputs.Assignable name) ∧
        (Inputs.Assignable name → ∀ text,
          Inputs.assignment (name ++ '=' :: text) = .ok (name, Value.ofInput text))) ∧
    ((∃ vars values, ∀ console,
      Inputs.collect Console.ask s.requiredInputs vars true console = (.ok values, console)) ↔
        ∀ name ∈ s.requiredInputs, Inputs.Assignable name) := by
  refine ⟨mem_requiredInputs_iff h, fun name _ => ⟨⟨?_, fun ha => ?_⟩, fun ha => ha.assignment_eq⟩,
    Inputs.exists_collect_noPrompt_iff⟩
  · rintro ⟨raw, value, hraw⟩
    exact Inputs.assignable_of_assignment hraw
  · exact ⟨_, _, ha.assignment_eq []⟩

/-- A script whose inputs have an empty name, a blank before a name, and an equals sign in a name. -/
def oddlyNamed : Script where
  source := "{{}} {{ a}} {{a=b}}".toList
  steps := [⟨1, "{{}} {{ a}} {{a=b}}".toList⟩]
  actions := [.text ⟨.default, ["".toList, " a".toList, "a=b".toList], {}⟩
    "{{}} {{ a}} {{a=b}}".toList]
  nodes := [.leaf ⟨.default, ["".toList, " a".toList, "a=b".toList], {}⟩
    ["".toList, " a".toList, "a=b".toList] "{{}} {{ a}} {{a=b}}".toList]

theorem compile_oddlyNamed : compile oddlyNamed.source = .ok oddlyNamed := by
  have haction : Step.action ⟨1, oddlyNamed.source⟩ =
      .ok (.text ⟨.default, ["".toList, " a".toList, "a=b".toList], {}⟩ oddlyNamed.source) := by
    cbv
  exact compile_eq_ok (by decide) (by cbv) (Step.split_eq_singleton (by decide) (by decide))
    (Action.ofSteps_cons haction rfl) (by cbv) (by cbv)

theorem requiredInputs_oddlyNamed :
    oddlyNamed.requiredInputs = ["".toList, " a".toList, "a=b".toList] := by
  decide

theorem not_assignable_oddlyNamed : ∀ name ∈ oddlyNamed.requiredInputs, ¬Inputs.Assignable name := by
  have hspace : Text.trim " a".toList ≠ " a".toList := by decide
  have hequals : '=' ∈ "a=b".toList := by decide
  rw [requiredInputs_oddlyNamed]
  simp only [List.forall_mem_cons]
  exact ⟨fun h => h.1 rfl, fun h => hspace h.2.1, fun h => h.2.2 hequals, by simp⟩

/-- No input of this script can be given by an assignment, although each is required. -/
theorem inputs_never_assigned :
    ∃ s, compile "{{}} {{ a}} {{a=b}}".toList = .ok s ∧
      s.requiredInputs = ["".toList, " a".toList, "a=b".toList] ∧
        ∀ name ∈ s.requiredInputs, ¬∃ raw value, Inputs.assignment raw = .ok (name, value) := by
  refine ⟨oddlyNamed, compile_oddlyNamed, requiredInputs_oddlyNamed, fun name hname => ?_⟩
  rintro ⟨raw, value, hraw⟩
  exact not_assignable_oddlyNamed name hname (Inputs.assignable_of_assignment hraw)

theorem inputs_assignable_iff_oddlyNamed :
    (compile oddlyNamed.source = .ok oddlyNamed ∧
      ¬∃ vars values, ∀ console, Inputs.collect Console.ask oddlyNamed.requiredInputs vars true
        console = (.ok values, console)) ∧
    compile selfReferring.source = .ok selfReferring ∧ selfReferring.requiredInputs = ["x".toList] ∧
      ∃ vars values, ∀ console, Inputs.collect Console.ask selfReferring.requiredInputs vars true
        console = (.ok values, console) := by
  have hrequired : selfReferring.requiredInputs = ["x".toList] := by decide
  have hx : Inputs.Assignable "x".toList := ⟨by decide, by decide, by decide⟩
  refine ⟨⟨compile_oddlyNamed, fun h => ?_⟩, compile_selfReferring, hrequired, ?_⟩
  · have hall := (inputs_assignable_iff compile_oddlyNamed).2.2.1 h
    exact not_assignable_oddlyNamed _ List.mem_cons_self (hall _ List.mem_cons_self)
  · apply (inputs_assignable_iff compile_selfReferring).2.2.2
    rw [hrequired]
    exact fun name hname => List.mem_singleton.1 hname ▸ hx

end Script

end PromptChain
