import PromptChain.Inputs
import PromptChain.Proofs.JsonReading
import PromptChain.Proofs.KeptJson
import PromptChain.Proofs.LoopIsolation

/-! The items of a loop over a list that was given as a value and of one over the same list as a
text, and what the prompts show of them. -/
namespace PromptChain

theorem Json.isCanonical_of_read? {t : Text} {items : List Json}
    (h : Json.read? t = some (.array items)) : ∀ item ∈ items, item.IsCanonical := by
  obtain ⟨written, -, hw⟩ := Option.map_eq_some_iff.1 h
  have hcanonical := Json.isCanonical_canonical written
  rw [hw] at hcanonical
  cases hcanonical with
  | array h => exact h

theorem Value.items?_string {t : Text} {items : List Json}
    (h : Json.read? t = some (.array items)) : (Value.string t).items? = some items := by
  rw [Value.items?, Json.read?_trim h]

theorem Value.items?_ofInput {t : Text} {items : List Json}
    (h : Json.read? t = some (.array items)) :
    (Value.ofInput t).items? = some (items.map Json.viaValue) := by
  rw [Value.ofInput, h]
  exact congrArg some (Json.jsonsWith_ofJsons items)

namespace Run

/-- What stands after the last line feed of a prompt. -/
def itemText (prompt : Text) : Text :=
  (prompt.reverse.takeWhile (· != '\n')).reverse

theorem itemText_itemPrompt (filled : Text) (item : Json) :
    itemText (itemPrompt filled item) = item.compact := by
  have hitem : ∀ c ∈ item.compact.reverse, (c != '\n') = true := by
    intro c hc
    rw [bne_iff_ne]
    rintro rfl
    exact Json.newline_not_mem_compact item (List.mem_reverse.1 hc)
  rw [itemText, itemPrompt, List.reverse_append, List.takeWhile_append_of_pos hitem,
    List.reverse_append]
  simp

theorem itemText_of_promptOfItem {e : Environment} {heading : Heading} {text : Text} {item : Json}
    {prompt : Text} (h : promptOfItem e heading text item = .ok prompt) :
    itemText prompt = item.compact := by
  obtain ⟨filled, -, hp⟩ := Outcome.map_eq_ok_iff.1 h
  rw [← hp, itemText_itemPrompt]

theorem map_itemText {e : Environment} {heading : Heading} {text : Text} {items : List Json}
    {sent : List Call}
    (h : sent.map (fun c => .ok c.prompt) = items.map (promptOfItem e heading text)) :
    sent.map (fun c => itemText c.prompt) = items.map Json.compact := by
  induction sent generalizing items with
  | nil =>
    have hitems : items = [] := List.map_eq_nil_iff.1 h.symm
    rw [hitems]
    rfl
  | cons c sent ih =>
    cases items with
    | nil => cases h
    | cons item items =>
      obtain ⟨hc, hrest⟩ := List.cons.inj h
      rw [List.map_cons, List.map_cons, ih hrest, itemText_of_promptOfItem hc.symm]

/-- The calls of a loop that is run over items: their prompts are those of the items in order, up to
the loop's end, and each shows its item after the last line feed. -/
structure SentItems (p : Provider) (step : Nat) (heading : Heading) (references : List Text)
    (text : Text) (r : Run) (items : List Json) (sent : List Call) : Prop where
  calls : (r.runNode p (.leaf heading references text) step).calls = r.calls ++ sent
  prompts : sent.map (fun c => .ok c.prompt) =
    (items.take sent.length).map (promptOfItem r.environment heading text)
  texts : sent.map (fun c => itemText c.prompt) = (items.take sent.length).map Json.compact
  ends : LoopEnd step heading.kind (promptOfItem r.environment heading text) items sent
    (r.runNode p (.leaf heading references text) step).failure

theorem exists_sentItems (p : Provider) (step : Nat) {heading : Heading} {source : Text}
    {aggregate : Bool} (hk : heading.kind = .loop (some source) aggregate)
    (references : List Text) (text : Text) {r : Run} (hr : r.failure = none) {value : Value}
    (hv : r.environment.get? source = some value) {items : List Json}
    (hi : value.items? = some items) :
    ∃ sent, SentItems p step heading references text r items sent := by
  have hrun : r.runNode p (.leaf heading references text) step =
      r.runItems p step heading text 1 items := by
    rw [runNode_loop hr hk]
    simp only [runLoop, hv, hi]
  have hisolated : ∀ done item rest, items = done ++ item :: rest →
      (r.runItems p step heading text 1 done).failure = none →
      promptOfItem (r.runItems p step heading text 1 done).environment heading text item =
        promptOfItem r.environment heading text item :=
    fun _ item _ _ hdone => promptOfItem_runItems hr hdone item
  obtain ⟨sent, hcalls, hprompts, hend⟩ := runItems_prompts hr hisolated
  rw [← hrun] at hcalls hend
  exact ⟨sent, hcalls, hprompts, map_itemText hprompts, hend⟩

/-- A loop over a list that is bound as a value and one over the text of the list show the same items
as far as the items are kept, and only so far. -/
theorem loop_texts_agree_iff (p : Provider) (step : Nat) {heading : Heading} {source : Text}
    {aggregate : Bool} (hk : heading.kind = .loop (some source) aggregate)
    (references : List Text) (text : Text) {t : Text} {items : List Json}
    (ht : Json.read? t = some (.array items)) {r₁ r₂ : Run}
    (h₁ : r₁.failure = none) (hv₁ : r₁.environment.get? source = some (.string t))
    (h₂ : r₂.failure = none) (hv₂ : r₂.environment.get? source = some (.ofInput t)) :
    (Value.string t).items? = some items ∧
    (Value.ofInput t).items? = some (items.map Json.viaValue) ∧
    ((Value.ofInput t).items? = (Value.string t).items? ↔ ∀ item ∈ items, item.Kept) ∧
    ∃ sent₁ sent₂, SentItems p step heading references text r₁ items sent₁ ∧
      SentItems p step heading references text r₂ (items.map Json.viaValue) sent₂ ∧
      ∀ count, count ≤ sent₁.length → count ≤ sent₂.length →
        ((sent₁.take count).map (fun c => itemText c.prompt) =
            (sent₂.take count).map (fun c => itemText c.prompt) ↔
          ∀ item ∈ items.take count, item.Kept) := by
  have hcanonical := Json.isCanonical_of_read? ht
  have hstring := Value.items?_string ht
  have hinput := Value.items?_ofInput ht
  refine ⟨hstring, hinput, ?_, ?_⟩
  · rw [hstring, hinput, Option.some.injEq, List.map_eq_self_iff]
    exact forall₂_congr fun item hitem => Json.viaValue_eq_self_iff (hcanonical item hitem)
  · obtain ⟨sent₁, hs₁⟩ := exists_sentItems p step hk references text h₁ hv₁ hstring
    obtain ⟨sent₂, hs₂⟩ := exists_sentItems p step hk references text h₂ hv₂ hinput
    refine ⟨sent₁, sent₂, hs₁, hs₂, fun count hc₁ hc₂ => ?_⟩
    rw [List.map_take, List.map_take, hs₁.texts, hs₂.texts, ← List.map_take, ← List.map_take,
      List.take_take, List.take_take, Nat.min_eq_left hc₁, Nat.min_eq_left hc₂, ← List.map_take,
      List.map_map, eq_comm, List.map_inj_left]
    exact forall₂_congr fun item hitem =>
      Json.compact_viaValue_eq_iff (hcanonical item (List.mem_of_mem_take hitem))

def mixedList : Text :=
  "[\"a\", null]".toList

def mixedStart (value : Value) : Run :=
  start [] (.ofList [("xs".toList, value)])

def mixedHeading : Heading :=
  ⟨.loop (some "xs".toList) true, ["xs".toList], {}⟩

def mixedText : Text :=
  "Describe {{xs}}".toList

theorem loop_texts_agree_iff_mixed :
    Json.read? mixedList = some (.array [.string "a".toList, .null]) ∧
    (mixedStart (.string mixedList)).environment.get? "xs".toList = some (.string mixedList) ∧
    (mixedStart (.ofInput mixedList)).environment.get? "xs".toList = some (.ofInput mixedList) ∧
    (Value.ofInput mixedList).items? ≠ (Value.string mixedList).items? ∧
    ∃ sent₁ sent₂,
      SentItems .echo 1 mixedHeading [] mixedText (mixedStart (.string mixedList))
        [.string "a".toList, .null] sent₁ ∧
      SentItems .echo 1 mixedHeading [] mixedText (mixedStart (.ofInput mixedList))
        ([.string "a".toList, .null].map Json.viaValue) sent₂ ∧
      ∀ count, count ≤ sent₁.length → count ≤ sent₂.length →
        ((sent₁.take count).map (fun c => itemText c.prompt) =
            (sent₂.take count).map (fun c => itemText c.prompt) ↔
          ∀ item ∈ [Json.string "a".toList, .null].take count, item.Kept) := by
  have ht : Json.read? mixedList = some (.array [.string "a".toList, .null]) := by cbv
  have hv : ∀ value, (mixedStart value).environment.get? "xs".toList = some value :=
    fun _ => rfl
  obtain ⟨-, -, hitems, hsent⟩ := loop_texts_agree_iff .echo 1
    (show mixedHeading.kind = .loop (some "xs".toList) true from rfl) [] mixedText ht
    (show (mixedStart (.string mixedList)).failure = none from rfl) (hv _)
    (show (mixedStart (.ofInput mixedList)).failure = none from rfl) (hv _)
  refine ⟨ht, hv _, hv _, fun heq => ?_, hsent⟩
  have hnull := hitems.1 heq .null (by simp)
  cases hnull

/-- Null is shown as it was written if the list is bound as a text, but as a string if the list is
bound as a value. -/
theorem loop_texts_differ :
    ((mixedStart (.string mixedList)).runNode .echo (.leaf mixedHeading [] mixedText) 1).calls.map
        (fun c => itemText c.prompt) = ["\"a\"".toList, "null".toList] ∧
    ((mixedStart (.ofInput mixedList)).runNode .echo (.leaf mixedHeading [] mixedText) 1).calls.map
        (fun c => itemText c.prompt) = ["\"a\"".toList, "\"null\"".toList] := by
  constructor
  · decide +kernel
  · decide +kernel

end Run

end PromptChain
