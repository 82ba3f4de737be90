import Mathlib.Data.List.Basic
import Mathlib.Tactic.ByContra
import Mathlib.Tactic.SplitIfs
import PromptChain.Run

/-! The log of a run: what it says of the environment, and how the parts of a run add to it. -/
namespace PromptChain

/-- A reply that brings no output: a failure, or an empty text. -/
def IsSilent (reply : Except ProviderError Text) : Prop :=
  reply = .ok [] ∨ ∃ e, reply = .error e

namespace Call

theorem output?_eq_some_iff {c : Call} {text : Text} :
    c.output? = some text ↔ c.reply = .ok text ∧ text ≠ [] := by
  unfold output?
  cases c.reply with
  | error e => simp
  | ok t =>
    cases t with
    | nil => simp
    | cons x xs =>
      simp only [List.isEmpty_cons, Bool.false_eq_true, if_false, Option.some.injEq,
        Except.ok.injEq]
      constructor
      · rintro rfl
        simp
      · exact And.left

theorem output?_eq_none_iff {c : Call} : c.output? = none ↔ IsSilent c.reply := by
  unfold output? IsSilent
  cases c.reply with
  | error e => simp
  | ok t => cases t <;> simp

end Call

/-- The output that a log holds under a name: that of the first call for it that had one. -/
def outputOf (log : List Call) (name : Text) : Option Text :=
  log.findSome? fun c => if c.key = name then c.output? else none

@[simp] theorem outputOf_nil (name : Text) : outputOf [] name = none := rfl

theorem outputOf_append (log log' : List Call) (name : Text) :
    outputOf (log ++ log') name = (outputOf log name).or (outputOf log' name) :=
  List.findSome?_append

theorem outputOf_singleton (c : Call) (name : Text) :
    outputOf [c] name = if c.key = name then c.output? else none := by
  cases h : (if c.key = name then c.output? else none) <;> simp [outputOf, h]

theorem outputOf_eq_none {log : List Call} {name : Text} (h : ∀ c ∈ log, c.key ≠ name) :
    outputOf log name = none :=
  List.findSome?_eq_none_iff.2 fun c hc => if_neg (h c hc)

/-- Where a name has one call only, its output is that of the call. -/
theorem outputOf_eq_some_iff {log : List Call} {name text : Text}
    (hn : (log.map Call.key).Nodup) :
    outputOf log name = some text ↔ ∃ c ∈ log, c.key = name ∧ c.output? = some text := by
  constructor
  · intro h
    obtain ⟨c, hc, ho⟩ := List.exists_of_findSome?_eq_some h
    split_ifs at ho with hk
    exact ⟨c, hc, hk, ho⟩
  · rintro ⟨c, hc, rfl, ho⟩
    obtain ⟨front, back, rfl⟩ := List.append_of_mem hc
    have hfront : outputOf front c.key = none := by
      apply outputOf_eq_none
      intro d hd he
      rw [List.map_append, List.nodup_append] at hn
      exact hn.2.2 d.key (List.mem_map_of_mem hd) c.key (by simp) he
    have hhead : outputOf [c] c.key = some text := by rw [outputOf_singleton, if_pos rfl, ho]
    have hsplit : front ++ c :: back = front ++ ([c] ++ back) := rfl
    rw [hsplit, outputOf_append, outputOf_append, hfront, hhead]
    rfl

/-- The replies of a log are those of the provider, who was asked the given prompts before. -/
def Answered (p : Provider) : (earlier : List Text) → List Call → Prop
  | _, [] => True
  | earlier, c :: rest =>
    c.reply = p.reply earlier c.prompt ∧ Answered p (earlier ++ [c.prompt]) rest

theorem answered_append {p : Provider} {earlier : List Text} {log log' : List Call} :
    Answered p earlier (log ++ log') ↔
      Answered p earlier log ∧ Answered p (earlier ++ log.map Call.prompt) log' := by
  induction log generalizing earlier with
  | nil => simp [Answered]
  | cons c rest ih => simp [Answered, ih, and_assoc]

namespace Run

/-- The run `r'` goes on from `r` with the calls of `sent`: they are added to the log, and their
outputs to the environment, where no value ever changes. -/
structure Continues (p : Provider) (r r' : Run) (sent : List Call) : Prop where
  calls : r'.calls = r.calls ++ sent
  asked : r'.asked = r.asked ++ sent.map Call.prompt
  answered : Answered p r.asked sent
  get? : ∀ name, r'.environment.get? name =
    (r.environment.get? name).or ((outputOf sent name).map Value.string)

namespace Continues

variable {p : Provider} {r r' r'' : Run} {sent sent' : List Call}

theorem refl (p : Provider) (r : Run) : Continues p r r [] :=
  ⟨by simp, by simp, trivial, by simp⟩

theorem trans (h : Continues p r r' sent) (h' : Continues p r' r'' sent') :
    Continues p r r'' (sent ++ sent') where
  calls := by rw [h'.calls, h.calls, List.append_assoc]
  asked := by rw [h'.asked, h.asked, List.map_append, List.append_assoc]
  answered := answered_append.2 ⟨h.answered, h.asked ▸ h'.answered⟩
  get? name := by
    rw [h'.get?, h.get?, outputOf_append, Option.or_assoc]
    cases outputOf sent name <;> rfl

theorem get?_of_some (h : Continues p r r' sent) {name : Text} {value : Value}
    (hv : r.environment.get? name = some value) : r'.environment.get? name = some value := by
  rw [h.get?, hv]
  rfl

/-- A name without calls keeps what it has, a value or none. -/
theorem get?_of_ne (h : Continues p r r' sent) {name : Text} (hn : ∀ c ∈ sent, c.key ≠ name) :
    r'.environment.get? name = r.environment.get? name := by
  rw [h.get?, outputOf_eq_none hn]
  exact Option.or_none

end Continues

theorem stop_continues (p : Provider) (r : Run) (step : Nat) (kind : Kind) (cause : Cause) :
    Continues p r (r.stop step kind cause) [] :=
  ⟨by simp [stop], by simp [stop], trivial, by simp [stop]⟩

section

variable {p : Provider} {step : Nat} {kind : Kind} {key prompt : Text} {r : Run}

@[simp] theorem call_key : (r.call p key prompt).key = key := rfl

@[simp] theorem call_prompt : (r.call p key prompt).prompt = prompt := rfl

theorem ask_of_none (ho : (r.call p key prompt).output? = none) :
    r.ask p step kind key prompt = r.record (r.call p key prompt) := by
  simp only [ask, ho]

theorem ask_of_new {output : Text} (ho : (r.call p key prompt).output? = some output)
    (hk : r.environment.get? key = none) :
    r.ask p step kind key prompt =
      { r.record (r.call p key prompt) with
        environment := Table.insert key (.string output) r.environment } := by
  simp [ask, ho, Environment.commit, Table.has, hk]

/-- An output under a name that has a value stops the run. -/
theorem ask_of_bound {output : Text} (ho : (r.call p key prompt).output? = some output)
    {value : Value} (hk : r.environment.get? key = some value) :
    r.ask p step kind key prompt =
      (r.record (r.call p key prompt)).stop step kind (.duplicate key) := by
  simp [ask, ho, Environment.commit, Table.has, hk]

theorem ask_continues (p : Provider) (step : Nat) (kind : Kind) (key prompt : Text) (r : Run) :
    Continues p r (r.ask p step kind key prompt) [r.call p key prompt] := by
  have hanswered : Answered p r.asked [r.call p key prompt] := ⟨rfl, trivial⟩
  cases ho : (r.call p key prompt).output? with
  | none =>
    rw [ask_of_none ho]
    refine ⟨rfl, rfl, hanswered, fun name => ?_⟩
    rw [outputOf_singleton, ho, ite_self]
    exact Option.or_none.symm
  | some output =>
    cases hk : r.environment.get? key with
    | none =>
      rw [ask_of_new ho hk]
      refine ⟨rfl, rfl, hanswered, fun name => ?_⟩
      rw [outputOf_singleton, call_key, ho]
      by_cases hn : key = name
      · subst hn
        simp [hk]
      · simp [hn, Table.get?_insert_of_ne (Ne.symm hn)]
    | some value =>
      rw [ask_of_bound ho hk]
      refine ⟨rfl, rfl, hanswered, fun name => ?_⟩
      rw [outputOf_singleton, call_key, ho]
      -- The value that the name has already stands before the output of the call.
      by_cases hn : key = name
      · subst hn
        simp [stop, record, hk]
      · simp [stop, record, hn]

/-- Sending a prompt stops a run only where the name of the output has a value already. -/
theorem ask_failure (p : Provider) (step : Nat) (kind : Kind) (key prompt : Text) (r : Run) :
    (r.ask p step kind key prompt).failure = r.failure ∨
      (r.ask p step kind key prompt).failure = some ⟨step, kind, .duplicate key⟩ ∧
        (r.environment.get? key).isSome = true := by
  cases ho : (r.call p key prompt).output? with
  | none => exact Or.inl (by rw [ask_of_none ho]; rfl)
  | some output =>
    cases hk : r.environment.get? key with
    | none => exact Or.inl (by rw [ask_of_new ho hk]; rfl)
    | some value => exact Or.inr ⟨by rw [ask_of_bound ho hk]; rfl, rfl⟩

end

section

variable {p : Provider} {step : Nat} {heading : Heading} {text : Text} {index : Nat} {r : Run}

/-- What keeps failed runs as they are ends without a failure only if it starts without one. -/
theorem failure_eq_none_of_fixed {r' : Run} (hfixed : r.failure.isSome = true → r' = r)
    (h : r'.failure = none) : r.failure = none := by
  by_contra hne
  rw [hfixed (Option.isSome_iff_ne_none.2 hne)] at h
  exact hne h

/-- The prompt of an item: the template filled with the item's value for the first declared name,
and the item's JSON on a line of its own. -/
theorem promptOfItem_eq (e : Environment) (heading : Heading) (text : Text) (item : Json) :
    promptOfItem e heading text item =
      (render e (.ofList ((heading.declared.take 1).map fun name => (name, .ofJson item)))
        text).map fun filled => filled ++ [' ', '\n'] ++ item.compact := by
  unfold promptOfItem itemBindings
  cases heading.declared <;> rfl

theorem runItem_of_failure (hr : r.failure.isSome = true) (item : Json) :
    r.runItem p step heading text item index = r :=
  if_pos hr

theorem runItem_of_ok (hr : r.failure = none) {item : Json} {prompt : Text}
    (hp : promptOfItem r.environment heading text item = .ok prompt) :
    r.runItem p step heading text item index =
      r.ask p step heading.kind (Step.itemKey step index) prompt := by
  simp [runItem, hr, hp]

theorem runItem_of_error (hr : r.failure = none) {item : Json} {u : UndefinedVariable}
    (hp : promptOfItem r.environment heading text item = .error u) :
    r.runItem p step heading text item index = r.stop step heading.kind (.undefined u.name) := by
  simp [runItem, hr, hp]

@[simp] theorem runItems_nil : r.runItems p step heading text index [] = r := rfl

theorem runItems_cons (item : Json) (items : List Json) :
    r.runItems p step heading text index (item :: items) =
      (r.runItem p step heading text item index).runItems p step heading text (index + 1) items :=
  rfl

theorem runItems_append (done rest : List Json) :
    r.runItems p step heading text index (done ++ rest) =
      (r.runItems p step heading text index done).runItems p step heading text
        (index + done.length) rest := by
  rw [runItems, List.zipIdx_append, List.foldl_append]
  rfl

theorem runItems_of_failure (hr : r.failure.isSome = true) (items : List Json) :
    r.runItems p step heading text index items = r :=
  List.foldl_fixed' (fun entry => runItem_of_failure hr entry.1) _

theorem failure_eq_none_of_runItems {items : List Json}
    (h : (r.runItems p step heading text index items).failure = none) : r.failure = none :=
  failure_eq_none_of_fixed (fun hr => runItems_of_failure hr items) h

/-- A loop makes a call for each of its items in order, up to the item at which it stops. -/
theorem runItems_continues (p : Provider) (step : Nat) (heading : Heading) (text : Text)
    (index : Nat) (items : List Json) (r : Run) :
    ∃ sent, Continues p r (r.runItems p step heading text index items) sent ∧
      sent.length ≤ items.length ∧
      sent.map Call.key = (List.range' index sent.length).map (Step.itemKey step) := by
  induction items generalizing index r with
  | nil => exact ⟨[], Continues.refl p r, by simp, rfl⟩
  | cons item items ih =>
    cases hr : r.failure with
    | some f =>
      rw [runItems_of_failure (by simp [hr])]
      exact ⟨[], Continues.refl p r, by simp, rfl⟩
    | none =>
      rw [runItems_cons]
      cases hp : promptOfItem r.environment heading text item with
      | error u =>
        rw [runItem_of_error hr hp, runItems_of_failure rfl]
        exact ⟨[], stop_continues p r _ _ _, by simp, rfl⟩
      | ok prompt =>
        rw [runItem_of_ok hr hp]
        obtain ⟨sent, hc, hl, hk⟩ := ih (index + 1)
          (r.ask p step heading.kind (Step.itemKey step index) prompt)
        refine ⟨_, (ask_continues p step heading.kind _ prompt r).trans hc, ?_, ?_⟩
        · simpa using hl
        · simp [List.range'_succ, hk]

end

section

variable {p : Provider} {first : Nat} {r : Run}

theorem runNode_of_failure (hr : r.failure.isSome = true) (node : Node) (step : Nat) :
    r.runNode p node step = r :=
  if_pos hr

@[simp] theorem runNodesFrom_nil : r.runNodesFrom p first [] = r := rfl

theorem runNodesFrom_cons (node : Node) (nodes : List Node) :
    r.runNodesFrom p first (node :: nodes) =
      (r.runNode p node first).runNodesFrom p (first + 1) nodes :=
  rfl

theorem runNodesFrom_append (nodes more : List Node) :
    r.runNodesFrom p first (nodes ++ more) =
      (r.runNodesFrom p first nodes).runNodesFrom p (first + nodes.length) more := by
  rw [runNodesFrom, List.zipIdx_append, List.foldl_append]
  rfl

theorem runNodesFrom_of_failure (hr : r.failure.isSome = true) (nodes : List Node) :
    r.runNodesFrom p first nodes = r :=
  List.foldl_fixed' (fun entry => runNode_of_failure hr entry.1 entry.2) _

theorem failure_eq_none_of_runNodesFrom {nodes : List Node}
    (h : (r.runNodesFrom p first nodes).failure = none) : r.failure = none :=
  failure_eq_none_of_fixed (fun hr => runNodesFrom_of_failure hr nodes) h

theorem runNode_prompt (hr : r.failure = none) {heading : Heading} (hk : heading.kind = .default)
    (references : List Text) (text : Text) (step : Nat) :
    r.runNode p (.leaf heading references text) step = r.runPrompt p step .default text := by
  simp [runNode, hr, hk]

theorem runNode_loop (hr : r.failure = none) {heading : Heading} {source : Option Text}
    {aggregate : Bool} (hk : heading.kind = .loop source aggregate) (references : List Text)
    (text : Text) (step : Nat) :
    r.runNode p (.leaf heading references text) step = r.runLoop p step heading source text := by
  simp [runNode, hr, hk]

end

end Run

end PromptChain
