import PromptChain.Proofs.Filling
import PromptChain.Proofs.OutputNames
import PromptChain.Proofs.RunLog

/-! The items of a loop do not see each other: the environment grows from item to item, but the
prompts are those of the environment in which the loop was entered. -/
namespace PromptChain.Run

variable {p : Provider} {step : Nat} {heading : Heading} {text : Text}

theorem get?_itemBindings_eq_none (heading : Heading) {item other : Json} {name : Text}
    (h : (itemBindings heading item).get? name = none) :
    (itemBindings heading other).get? name = none := by
  cases hd : heading.declared with
  | nil => simp [itemBindings, hd]
  | cons first rest =>
    simp only [itemBindings, hd, Table.get?_insert] at h ⊢
    split_ifs at h with hn
    rw [if_neg hn, Table.get?_empty]

/-- Once an item of a loop has a prompt, the prompts of all items stay as they are while values are
added under names that no output of a step has. -/
theorem promptOfItem_of_extension {e e' : Environment}
    (hkeep : ∀ name value, e.get? name = some value → e'.get? name = some value)
    (hstep : ∀ name, Step.isReference name = true → e'.get? name = e.get? name)
    {first : Json} {prompt : Text} (hfirst : promptOfItem e heading text first = .ok prompt)
    (item : Json) : promptOfItem e' heading text item = promptOfItem e heading text item := by
  obtain ⟨filled, hfilled, -⟩ := Outcome.map_eq_ok_iff.1 hfirst
  have hrender : render e' (itemBindings heading item) text =
      render e (itemBindings heading item) text := by
    apply render_congr _ hstep
    intro name hm hr
    cases hb : (itemBindings heading item).get? name with
    | some value => rfl
    | none =>
      -- The first item bound the same names, so that a name it left free had its value in `e`.
      have hs := isSome_of_render hfilled hm hr
      rw [get?_itemBindings_eq_none heading hb, Option.none_or] at hs
      obtain ⟨value, hv⟩ := Option.isSome_iff_exists.1 hs
      rw [hkeep name value hv, hv]
  simp only [promptOfItem, hrender]

theorem promptOfItem_of_runItem {r : Run} {index : Nat} {item : Json} (hr : r.failure = none)
    (h : (r.runItem p step heading text item index).failure = none) :
    ∃ prompt, promptOfItem r.environment heading text item = .ok prompt := by
  cases hp : promptOfItem r.environment heading text item with
  | ok prompt => exact ⟨prompt, rfl⟩
  | error u =>
    rw [runItem_of_error hr hp] at h
    cases h

/-- After any items that did not stop the loop, prompts are what they were at its entry. -/
theorem promptOfItem_runItems {r : Run} {index : Nat} {done : List Json} (hr : r.failure = none)
    (h : (r.runItems p step heading text index done).failure = none) (item : Json) :
    promptOfItem (r.runItems p step heading text index done).environment heading text item =
      promptOfItem r.environment heading text item := by
  cases done with
  | nil => rfl
  | cons first rest =>
    obtain ⟨sent, hc, -, hkeys⟩ := runItems_continues p step heading text index (first :: rest) r
    rw [runItems_cons] at h
    obtain ⟨prompt, hp⟩ := promptOfItem_of_runItem hr (failure_eq_none_of_runItems h)
    refine promptOfItem_of_extension (fun name value => hc.get?_of_some) ?_ hp item
    intro name hname
    apply hc.get?_of_ne
    intro c hm he
    have hmem : c.key ∈ sent.map Call.key := List.mem_map_of_mem hm
    rw [hkeys] at hmem
    obtain ⟨k, -, hk⟩ := List.mem_map.1 hmem
    rw [← he, ← hk, Step.isReference_itemKey] at hname
    cases hname

/-- How a loop ends that sent some of its items: with all of them, at an item whose prompt fails,
or at an output whose name has a value already. -/
inductive LoopEnd (step : Nat) (kind : Kind) (prompt : Json → Except UndefinedVariable Text)
    (items : List Json) (sent : List Call) : Option Failure → Prop where
  | complete (h : sent.length = items.length) : LoopEnd step kind prompt items sent none
  | undefined {item : Json} {u : UndefinedVariable} (hi : items[sent.length]? = some item)
      (hu : prompt item = .error u) :
      LoopEnd step kind prompt items sent (some ⟨step, kind, .undefined u.name⟩)
  | duplicate {c : Call} (hc : sent.getLast? = some c) :
      LoopEnd step kind prompt items sent (some ⟨step, kind, .duplicate c.key⟩)

theorem LoopEnd.cons {kind : Kind} {prompt : Json → Except UndefinedVariable Text}
    {items : List Json} {sent : List Call} {f : Option Failure} (item : Json) (c : Call)
    (h : LoopEnd step kind prompt items sent f) :
    LoopEnd step kind prompt (item :: items) (c :: sent) f := by
  cases h with
  | complete h => exact .complete (by simp [h])
  | undefined hi hu => exact .undefined (by simpa using hi) hu
  | duplicate hc => exact .duplicate (by simp [List.getLast?_cons, hc])

/-- If prompts are given by a function of the items, then a loop sends the values of the function,
item by item, up to its end. -/
theorem runItems_prompts {prompt : Json → Except UndefinedVariable Text} {items : List Json}
    {index : Nat} {r : Run} (hr : r.failure = none)
    (hprompt : ∀ done item rest, items = done ++ item :: rest →
      (r.runItems p step heading text index done).failure = none →
      promptOfItem (r.runItems p step heading text index done).environment heading text item =
        prompt item) :
    ∃ sent, (r.runItems p step heading text index items).calls = r.calls ++ sent ∧
      sent.map (fun c => .ok c.prompt) = (items.take sent.length).map prompt ∧
      LoopEnd step heading.kind prompt items sent
        (r.runItems p step heading text index items).failure := by
  induction items generalizing index r with
  | nil => exact ⟨[], by simp, rfl, by rw [runItems_nil, hr]; exact .complete rfl⟩
  | cons item items ih =>
    have hitem := hprompt [] item items rfl hr
    rw [runItems_nil] at hitem
    rw [runItems_cons]
    cases hp : promptOfItem r.environment heading text item with
    | error u =>
      rw [runItem_of_error hr hp, runItems_of_failure rfl]
      refine ⟨[], by simp [stop], rfl, ?_⟩
      exact .undefined rfl (hitem.symm.trans hp)
    | ok sentPrompt =>
      have hask : r.runItem p step heading text item index =
          r.ask p step heading.kind (Step.itemKey step index) sentPrompt := runItem_of_ok hr hp
      have hc := ask_continues p step heading.kind (Step.itemKey step index) sentPrompt r
      rw [hask]
      rcases ask_failure p step heading.kind (Step.itemKey step index) sentPrompt r with
        hf | ⟨hf, -⟩
      · -- The hypothesis covers all items before one, so that it passes on to the later run.
        have hlater : ∀ done other rest, items = done ++ other :: rest →
            ((r.ask p step heading.kind (Step.itemKey step index) sentPrompt).runItems p step
              heading text (index + 1) done).failure = none →
            promptOfItem ((r.ask p step heading.kind (Step.itemKey step index) sentPrompt).runItems
              p step heading text (index + 1) done).environment heading text other =
                prompt other := by
          intro done other rest hitems hfail
          have hrun := hprompt (item :: done) other rest (by rw [hitems]; rfl)
          rw [runItems_cons, hask] at hrun
          exact hrun hfail
        obtain ⟨sent, hcalls, hmap, hend⟩ := ih (hf.trans hr) hlater
        refine ⟨r.call p (Step.itemKey step index) sentPrompt :: sent, ?_, ?_, hend.cons _ _⟩
        · rw [hcalls, hc.calls, List.append_assoc]
          rfl
        · simp [hmap, ← hitem, hp]
      · rw [runItems_of_failure (by rw [hf]; rfl), hf]
        refine ⟨[r.call p (Step.itemKey step index) sentPrompt], hc.calls, ?_, ?_⟩
        · simp [← hitem, hp]
        · exact .duplicate (c := r.call p (Step.itemKey step index) sentPrompt) rfl

/-- The prompt that a loop computes for an item after others is the prompt of the item in the
environment at the loop's entry. So the prompts that the loop sends are those of its items in order,
up to the first failure, whatever the provider replies. -/
theorem loop_items_isolated (p : Provider) {r : Run} (hr : r.failure = none) (step : Nat)
    {heading : Heading} {source : Text} {aggregate : Bool}
    (hk : heading.kind = .loop (some source) aggregate) (references : List Text) (text : Text)
    {value : Value} (hv : r.environment.get? source = some value) {items : List Json}
    (hi : value.items? = some items) :
    let prompt := fun item : Json =>
      (render r.environment
        (.ofList ((heading.declared.take 1).map fun name => (name, .ofJson item))) text).map
          fun filled => filled ++ [' ', '\n'] ++ item.compact
    (∀ done item rest, items = done ++ item :: rest →
      (r.runItems p step heading text 1 done).failure = none →
      promptOfItem (r.runItems p step heading text 1 done).environment heading text item =
        prompt item) ∧
    ∃ sent, (r.runNode p (.leaf heading references text) step).calls = r.calls ++ sent ∧
      sent.map (fun c => .ok c.prompt) = (items.take sent.length).map prompt ∧
      LoopEnd step heading.kind prompt items sent
        (r.runNode p (.leaf heading references text) step).failure := by
  intro prompt
  have hrun : r.runNode p (.leaf heading references text) step =
      r.runItems p step heading text 1 items := by
    rw [runNode_loop hr hk]
    simp only [runLoop, hv, hi]
  have hisolated : ∀ done item rest, items = done ++ item :: rest →
      (r.runItems p step heading text 1 done).failure = none →
      promptOfItem (r.runItems p step heading text 1 done).environment heading text item =
        prompt item :=
    fun _ item _ _ hdone =>
      (promptOfItem_runItems hr hdone item).trans (promptOfItem_eq _ heading text item)
  rw [hrun]
  exact ⟨hisolated, runItems_prompts hr hisolated⟩

/-- A run before a loop over two texts. The value of `x` brings the item's name into the prompts. -/
def pairStart : Run :=
  start [] (.ofList [("x".toList, .string "{{item}}".toList),
    ("xs".toList, .array [.string "a".toList, .string "b".toList])])

def pairHeading : Heading :=
  ⟨.loop (some "xs".toList) true, ["item".toList], {}⟩

def pairText : Text :=
  "{{x}} {{item}}".toList

theorem loop_items_isolated_pair :
    pairStart.environment.get? "xs".toList =
        some (.array [.string "a".toList, .string "b".toList]) ∧
      (pairStart.runItems .echo 1 pairHeading pairText 1 [.string "a".toList]).failure = none ∧
      promptOfItem (pairStart.runItems .echo 1 pairHeading pairText 1
          [.string "a".toList]).environment pairHeading pairText (.string "b".toList) =
        .ok "{{item}} b \n\"b\"".toList ∧
      (pairStart.runNode .echo (.leaf pairHeading [] pairText) 1).calls.map Call.prompt =
        ["{{item}} a \n\"a\"".toList, "{{item}} b \n\"b\"".toList] := by
  have hv : pairStart.environment.get? "xs".toList =
      some (.array [.string "a".toList, .string "b".toList]) := rfl
  have hdone : (pairStart.runItems .echo 1 pairHeading pairText 1
      [.string "a".toList]).failure = none := by decide +kernel
  have hfailure : (pairStart.runNode .echo (.leaf pairHeading [] pairText) 1).failure = none := by
    decide +kernel
  have hfirst : promptOfItem pairStart.environment pairHeading pairText (.string "a".toList) =
      .ok "{{item}} a \n\"a\"".toList := by decide +kernel
  have hsecond : promptOfItem pairStart.environment pairHeading pairText (.string "b".toList) =
      .ok "{{item}} b \n\"b\"".toList := by decide +kernel
  rw [promptOfItem_eq] at hfirst hsecond
  obtain ⟨hisolated, sent, hcalls, hprompts, hend⟩ :=
    loop_items_isolated .echo (show pairStart.failure = none from rfl) 1
      (show pairHeading.kind = _ from rfl) [] pairText hv rfl
  have hafter := (hisolated [.string "a".toList] (.string "b".toList) [] rfl hdone).trans hsecond
  refine ⟨hv, hdone, hafter, ?_⟩
  rw [hfailure] at hend
  cases hend with | complete hlength =>
  rw [hlength] at hprompts
  have hsent : (sent.map Call.prompt).map (Except.ok (ε := UndefinedVariable)) =
      ["{{item}} a \n\"a\"".toList, "{{item}} b \n\"b\"".toList].map Except.ok := by
    rw [List.map_map]
    refine hprompts.trans ?_
    exact congrArg₂ (fun first second => [first, second]) hfirst hsecond
  rw [hcalls]
  exact (List.map_inj_right fun _ _ => Except.ok.inj).1 hsent

end PromptChain.Run
