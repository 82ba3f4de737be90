import PromptChain.Proofs.Assignments
import PromptChain.Proofs.ConsoleLines

/-! Collected inputs: every required name gets a value, a question is asked for each name that no
assignment gives one to, and it does not matter which values are assigned and which are typed in. -/
namespace PromptChain

namespace Inputs

theorem get?_assign (value : Text → Value) (names : List Text) (values : Table Value) (name : Text) :
    (assign value names values).get? name =
      if name ∈ names then some (value name) else values.get? name := by
  induction names generalizing values with
  | nil => rfl
  | cons first names ih =>
    have hstep : assign value (first :: names) values =
        assign value names (values.insert first (value first)) := rfl
    rw [hstep, ih]
    by_cases hm : name ∈ names
    · rw [if_pos hm, if_pos (List.mem_cons_of_mem first hm)]
    · rw [if_neg hm]
      by_cases hfirst : name = first
      · rw [if_pos (hfirst ▸ List.mem_cons_self), hfirst, Table.get?_insert_self]
      · rw [if_neg (by simp [hfirst, hm]), Table.get?_insert_of_ne hfirst]

theorem assign_append (value : Text → Value) (names more : List Text) (values : Table Value) :
    assign value (names ++ more) values = assign value more (assign value names values) :=
  List.foldl_append

/-- The order in which names get their values does not matter, nor does it that one gets its value
more than once. -/
theorem assign_eq_ofList (value : Text → Value) {names required : List Text}
    (h : ∀ name, name ∈ names ↔ name ∈ required) :
    assign value names ∅ = Table.ofList (required.map fun name => (name, value name)) := by
  refine Table.ext_get? fun name => ?_
  rw [get?_assign, Table.get?_ofList_map, Table.get?_empty]
  simp only [h]

theorem askAll_cons {σ : Type} (ask : Text → StateM σ Bytes) (name : Text) (names : List Text)
    (values : Table Value) (s : σ) :
    askAll ask (name :: names) values s =
      match answer name (ask (question name) s).1 with
      | .error e => (.error e, (ask (question name) s).2)
      | .ok value =>
        askAll ask names (values.insert name value) (ask (question name) s).2 := by
  change (match answer name (ask (question name) s).1 with
    | .error e => pure (.error e)
    | .ok value => askAll ask names (values.insert name value) :
      StateM σ (Except InputError (Table Value))) (ask (question name) s).2 = _
  cases answer name (ask (question name) s).1 <;> rfl

/-- What asking for names does if all of them get a value: each question is shown, and each takes a
line. -/
structure Asked (names : List Text) (values result : Table Value) (before after : Console) :
    Prop where
  bound : ∀ name, result.has name = true ↔ name ∈ names ∨ values.has name = true
  shown : after.shown = before.shown ++ names.flatMap question
  taken : Console.TakesLines names.length before.input after.input

theorem asked_of_askAll {names : List Text} {values result : Table Value} {before after : Console}
    (h : askAll Console.ask names values before = (.ok result, after)) :
    Asked names values result before after := by
  induction names generalizing values before with
  | nil =>
    cases h
    exact ⟨by simp, by simp, .none _⟩
  | cons name names ih =>
    rw [askAll_cons, Console.ask_eq] at h
    cases hanswer : answer name (Console.cutLine before.input).1 with
    | error e =>
      rw [hanswer] at h
      cases h
    | ok value =>
      -- The end of the input is no answer, so that each answer has taken a line.
      rw [hanswer] at h
      obtain ⟨hbound, hshown, htaken⟩ := ih h
      refine ⟨fun other => ?_, ?_, Console.takesLines_succ (ne_nil_of_answer hanswer) htaken⟩
      · rw [hbound, Table.has_insert, List.mem_cons]
        tauto
      · rw [hshown, List.flatMap_cons, List.append_assoc]

/-- Typed lines answer the questions in turn. -/
theorem askAll_typed {names : List Text} {raw : Text → Text}
    (h : ∀ name ∈ names, Typable (raw name)) (values : Table Value) (more : Bytes) (shown : Text) :
    askAll Console.ask names values
        ⟨Utf8.encode (names.flatMap fun name => raw name ++ ['\n']) ++ more, shown⟩ =
      (.ok (assign (fun name => Value.ofInput (raw name)) names values),
        ⟨more, shown ++ names.flatMap question⟩) := by
  induction names generalizing values shown with
  | nil =>
    rw [List.flatMap_nil, List.flatMap_nil, List.append_nil]
    rfl
  | cons name names ih =>
    have hname := h name List.mem_cons_self
    have hinput : Utf8.encode ((name :: names).flatMap fun name => raw name ++ ['\n']) ++ more =
        Utf8.encode (raw name ++ ['\n']) ++
          (Utf8.encode (names.flatMap fun name => raw name ++ ['\n']) ++ more) := by
      rw [List.flatMap_cons, Utf8.encode_append, List.append_assoc]
    rw [askAll_cons, hinput, Console.ask_typed hname.1, hname.answer_eq]
    dsimp only
    rw [ih fun other ho => h other (List.mem_cons_of_mem name ho), List.flatMap_cons,
      List.append_assoc]
    rfl

/-- What it means that inputs are complete: no required name is left without a value, a run starts
with values for the required names and no others, and questions were asked for the names without an
assignment, in order, each taking a line. -/
structure Complete (required vars : List Text) (values : Table Value) (before after : Console) :
    Prop where
  missing : Script.missingInputs required values = []
  bound : ∀ name, Table.has name (Script.initialEnvironment required values) = true ↔
    name ∈ required
  shown : after.shown = before.shown ++ (unassigned required vars).flatMap question
  taken : Console.TakesLines (unassigned required vars).length before.input after.input

theorem complete_of_collect {required vars : List Text} {noPrompt : Bool} {values : Table Value}
    {before after : Console}
    (h : collect Console.ask required vars noPrompt before = (.ok values, after)) :
    Complete required vars values before after := by
  obtain ⟨given, hgiven, -, hask⟩ := collect_eq_ok_iff.1 h
  obtain ⟨hbound, hshown, htaken⟩ := asked_of_askAll hask
  have hall : ∀ name ∈ required, values.has name = true := by
    intro name hname
    rw [hbound, has_of_assignments hgiven, unassigned, List.mem_filter]
    cases hgives : vars.any (gives name) with
    | true => exact Or.inr (Or.inr rfl)
    | false => exact Or.inl ⟨hname, rfl⟩
  refine ⟨?_, fun name => ?_, hshown, htaken⟩
  · rw [Script.missingInputs, List.filter_eq_nil_iff]
    intro name hname
    rw [hall name hname]
    exact Bool.false_ne_true
  · rw [Script.has_initialEnvironment]
    exact and_iff_left_of_imp (hall name)

theorem unassigned_eq {required given : List Text} {raw : Text → Text}
    (h : ∀ name ∈ given, Assignable name) :
    unassigned required (given.map fun name => name ++ '=' :: raw name) =
      required.filter fun name => !given.contains name := by
  apply List.filter_congr
  intro name _
  have hgives : (given.map fun name => name ++ '=' :: raw name).any (gives name) = true ↔
      given.contains name = true := by
    simp only [List.any_eq_true, List.mem_map, List.contains_iff_mem]
    constructor
    · rintro ⟨_, ⟨other, ho, rfl⟩, hother⟩
      obtain ⟨value, hvalue⟩ := gives_iff.1 hother
      cases ((h other ho).assignment_eq (raw other)).symm.trans hvalue
      exact ho
    · intro hname
      exact ⟨_, ⟨name, hname, rfl⟩, gives_iff.2 ⟨_, (h name hname).assignment_eq (raw name)⟩⟩
  rw [Bool.eq_iff_iff.2 hgives]

/-- Inputs that are collected are complete, whatever the assignments and the input are. Where the
names can be assigned and the texts can be typed, the values are the same for each choice of names
that are assigned, in any order, if the others are typed in their order. -/
theorem collect_complete_and_uniform :
    (∀ (required vars : List Text) (noPrompt : Bool) (before after : Console)
      (values : Table Value),
      collect Console.ask required vars noPrompt before = (.ok values, after) →
        Complete required vars values before after) ∧
    ∀ (required given : List Text) (raw : Text → Text) (noPrompt : Bool) (more : Bytes)
      (shown : Text),
      (∀ name ∈ required, Assignable name) → (∀ name ∈ required, Typable (raw name)) →
      given ⊆ required → (noPrompt = true → required ⊆ given) →
        let typed := required.filter fun name => !given.contains name
        collect Console.ask required (given.map fun name => name ++ '=' :: raw name) noPrompt
            ⟨Utf8.encode (typed.flatMap fun name => raw name ++ ['\n']) ++ more, shown⟩ =
          (.ok (Table.ofList (required.map fun name => (name, Value.ofInput (raw name)))),
            ⟨more, shown ++ typed.flatMap question⟩) := by
  refine ⟨fun _ _ _ _ _ _ h => complete_of_collect h, ?_⟩
  intro required given raw noPrompt more shown hnames hraw hgiven hprompt typed
  have hassignable : ∀ name ∈ given, Assignable name := fun name hm => hnames name (hgiven hm)
  have htypable : ∀ name ∈ typed, Typable (raw name) :=
    fun name hm => hraw name (List.mem_filter.1 hm).1
  have htyped : unassigned required (given.map fun name => name ++ '=' :: raw name) = typed :=
    unassigned_eq hassignable
  have hmem : ∀ name, name ∈ given ++ typed ↔ name ∈ required := by
    intro name
    rw [List.mem_append, List.mem_filter, Bool.not_eq_true', ← Bool.not_eq_true,
      List.contains_iff_mem]
    by_cases hm : name ∈ given
    · exact iff_of_true (Or.inl hm) (hgiven hm)
    · simp only [hm, false_or, not_false_eq_true, and_true]
  refine collect_eq_ok_iff.2 ⟨_, assignments_eq hassignable raw ∅, fun hno => ?_, ?_⟩
  · rw [htyped, List.filter_eq_nil_iff]
    intro name hm
    rw [List.contains_iff_mem.2 (hprompt hno hm)]
    exact Bool.false_ne_true
  · -- Assigned and typed values are put into one table, in which their order is lost.
    rw [htyped, askAll_typed htypable, ← assign_eq_ofList _ hmem, assign_append]

def topicAndLength : List Text :=
  ["topic".toList, "length".toList]

def rawTexts (name : Text) : Text :=
  if name = "topic".toList then "a=b".toList else "300".toList

theorem assignable_topicAndLength : ∀ name ∈ topicAndLength, Assignable name := by
  have htopic : Assignable "topic".toList := ⟨by decide, by decide, by decide⟩
  have hlength : Assignable "length".toList := ⟨by decide, by decide, by decide⟩
  simp only [topicAndLength, List.forall_mem_cons]
  exact ⟨htopic, hlength, by simp⟩

theorem typable_rawTexts : ∀ name ∈ topicAndLength, Typable (rawTexts name) := by
  have htopic : Typable (rawTexts "topic".toList) := ⟨by decide, by decide⟩
  have hlength : Typable (rawTexts "length".toList) := ⟨by decide, by decide⟩
  simp only [topicAndLength, List.forall_mem_cons]
  exact ⟨htopic, hlength, by simp⟩

/-- The topic is typed and the length is assigned, or both are assigned in the other order. -/
theorem collect_complete_and_uniform_topicAndLength :
    ∃ values,
      collect Console.ask topicAndLength ["length=300".toList] false
          ⟨Utf8.encode "a=b\nmore".toList, []⟩ =
        (.ok values, ⟨Utf8.encode "more".toList, "Enter value for topic: ".toList⟩) ∧
      collect Console.ask topicAndLength ["length=300".toList, "topic=a=b".toList] true ⟨[], []⟩ =
        (.ok values, ⟨[], []⟩) ∧
      Complete topicAndLength ["length=300".toList] values ⟨Utf8.encode "a=b\nmore".toList, []⟩
        ⟨Utf8.encode "more".toList, "Enter value for topic: ".toList⟩ := by
  have htyped := collect_complete_and_uniform.2 topicAndLength ["length".toList] rawTexts false
    (Utf8.encode "more".toList) [] assignable_topicAndLength typable_rawTexts (by decide) (by decide)
  have hassigned := collect_complete_and_uniform.2 topicAndLength
    ["length".toList, "topic".toList] rawTexts true [] [] assignable_topicAndLength typable_rawTexts
    (by decide) (by decide)
  exact ⟨_, htyped, hassigned, collect_complete_and_uniform.1 _ _ _ _ _ _ htyped⟩

end Inputs

end PromptChain
