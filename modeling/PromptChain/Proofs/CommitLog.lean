import Mathlib.Data.Prod.Lex
import PromptChain.Proofs.OutputNames
import PromptChain.Proofs.RunLog

/-! A run as a log of commits: which outputs are asked for, in which order, and what of them the
environment holds in the end. Nothing here depends on how the run ends. -/
namespace PromptChain

/-- Where an output comes from: a step that asks once, or an item of a step that asks for each. -/
inductive Place where
  | prompt (step : Nat)
  | item (step index : Nat)
deriving DecidableEq, Repr

namespace Place

def key : Place → Text
  | prompt step => Step.outputKey step
  | item step index => Step.itemKey step index

/-- Step before item: the order in which a run comes to its places. -/
def rank : Place → Nat ×ₗ Nat
  | prompt step => toLex (step, 0)
  | item step index => toLex (step, index)

/-- The places of a node that is run as step `n`. A loop has one for each item of its list, which
is the value of its source. -/
def OfNode (e : Environment) (n : Nat) (node : Node) : Place → Prop
  | prompt step => step = n ∧
      ∃ heading references text, node = .leaf heading references text ∧ heading.kind = .default
  | item step index => step = n ∧ 1 ≤ index ∧
      ∃ heading references text source aggregate value items,
        node = .leaf heading references text ∧ heading.kind = .loop (some source) aggregate ∧
          e.get? source = some value ∧ value.items? = some items ∧ index ≤ items.length

def OfNodes (e : Environment) (first : Nat) (nodes : List Node) (place : Place) : Prop :=
  ∃ i node, nodes[i]? = some node ∧ OfNode e (first + i) node place

theorem key_injective {a b : Place} (h : a.key = b.key) : a = b := by
  cases a with
  | prompt n =>
    cases b with
    | prompt m => rw [Step.outputKey_injective h]
    | item m k => exact absurd h (Step.outputKey_ne_itemKey n m k)
  | item n k =>
    cases b with
    | prompt m => exact absurd h.symm (Step.outputKey_ne_itemKey m n k)
    | item m l =>
      obtain ⟨rfl, rfl⟩ := Step.itemKey_injective h
      rfl

theorem nodup_keys {places : List Place} (h : places.Pairwise fun a b => a.rank < b.rank) :
    (places.map key).Nodup := by
  rw [List.nodup_iff_pairwise_ne, List.pairwise_map]
  refine h.imp ?_
  intro a b hlt he
  rw [key_injective he] at hlt
  exact lt_irrefl _ hlt

theorem OfNode.mono {e e' : Environment} {n : Nat} {node : Node} {place : Place}
    (he : ∀ name value, e.get? name = some value → e'.get? name = some value)
    (h : OfNode e n node place) : OfNode e' n node place := by
  cases place with
  | prompt step => exact h
  | item step index =>
    obtain ⟨hs, hi, heading, references, text, source, aggregate, value, items, hn, hk, hv, hr⟩ := h
    exact ⟨hs, hi, heading, references, text, source, aggregate, value, items, hn, hk,
      he source value hv, hr⟩

theorem OfNode.rank_fst {e : Environment} {n : Nat} {node : Node} {place : Place}
    (h : OfNode e n node place) : (ofLex place.rank).1 = n := by
  cases place with
  | prompt step => exact h.1
  | item step index => exact h.1

theorem OfNodes.le_rank_fst {e : Environment} {first : Nat} {nodes : List Node} {place : Place}
    (h : OfNodes e first nodes place) : first ≤ (ofLex place.rank).1 := by
  obtain ⟨i, node, -, hp⟩ := h
  rw [hp.rank_fst]
  omega

end Place

namespace Run

/-- The calls of `sent` are made for the places, each later than the one before it. -/
structure VisitsInOrder (places : List Place) (sent : List Call) : Prop where
  keys : sent.map Call.key = places.map Place.key
  order : places.Pairwise fun a b => a.rank < b.rank

theorem visitsInOrder_nil : VisitsInOrder [] [] :=
  ⟨rfl, List.Pairwise.nil⟩

private theorem visitsInOrder_items (step : Nat) {sent : List Call}
    (hk : sent.map Call.key = (List.range' 1 sent.length).map (Step.itemKey step)) :
    VisitsInOrder ((List.range' 1 sent.length).map (Place.item step)) sent := by
  constructor
  · rw [hk, List.map_map]
    rfl
  · rw [List.pairwise_map]
    refine List.Pairwise.imp ?_ List.pairwise_lt_range'
    intro i j hij
    exact Prod.Lex.toLex_lt_toLex.2 (Or.inr ⟨rfl, hij⟩)

/-- A node makes calls for its own places. -/
theorem runNode_visits (p : Provider) (r : Run) (node : Node) (step : Nat) :
    ∃ sent places, Continues p r (r.runNode p node step) sent ∧ VisitsInOrder places sent ∧
      ∀ place ∈ places, Place.OfNode (r.runNode p node step).environment step node place := by
  have hstop : ∀ kind cause, ∃ sent places, Continues p r (r.stop step kind cause) sent ∧
      VisitsInOrder places sent ∧
      ∀ place ∈ places, Place.OfNode (r.stop step kind cause).environment step node place :=
    fun kind cause => ⟨[], [], stop_continues p r step kind cause, visitsInOrder_nil, by simp⟩
  cases hr : r.failure with
  | some f =>
    rw [runNode_of_failure (by simp [hr])]
    exact ⟨[], [], Continues.refl p r, visitsInOrder_nil, by simp⟩
  | none =>
    cases node with
    | branch heading references children =>
      have hn : r.runNode p (.branch heading references children) step =
          r.stop step heading.kind .branch := by simp [runNode, hr]
      rw [hn]
      exact hstop _ _
    | leaf heading references text =>
      cases hk : heading.kind with
      | default =>
        rw [runNode_prompt hr hk]
        unfold runPrompt
        cases hp : render r.environment ∅ text with
        | error u => exact hstop _ _
        | ok prompt =>
          refine ⟨_, [.prompt step], ask_continues p step .default _ prompt r, ⟨rfl, by simp⟩, ?_⟩
          intro place hm
          rw [List.mem_singleton.1 hm]
          exact ⟨rfl, heading, references, text, rfl, hk⟩
      | loop source aggregate =>
        rw [runNode_loop hr hk]
        unfold runLoop
        cases source with
        | none => exact hstop _ _
        | some source =>
          dsimp only
          cases hv : r.environment.get? source with
          | none => exact hstop _ _
          | some value =>
            dsimp only
            cases hi : value.items? with
            | none => exact hstop _ _
            | some items =>
              obtain ⟨sent, hc, hl, hkeys⟩ :=
                runItems_continues p step heading text 1 items r
              refine ⟨sent, _, hc, visitsInOrder_items step hkeys, ?_⟩
              intro place hm
              obtain ⟨index, hx, rfl⟩ := List.mem_map.1 hm
              rw [List.mem_range'_1] at hx
              exact ⟨rfl, hx.1, heading, references, text, source, aggregate, value, items, rfl, hk,
                hc.get?_of_some hv, hi, by omega⟩

/-- Nodes make calls for their places, in the order of the places. -/
theorem runNodesFrom_visits (p : Provider) (first : Nat) (nodes : List Node) (r : Run) :
    ∃ sent places, Continues p r (r.runNodesFrom p first nodes) sent ∧
      VisitsInOrder places sent ∧
      ∀ place ∈ places,
        Place.OfNodes (r.runNodesFrom p first nodes).environment first nodes place := by
  induction nodes generalizing first r with
  | nil => exact ⟨[], [], Continues.refl p r, visitsInOrder_nil, by simp⟩
  | cons node nodes ih =>
    rw [runNodesFrom_cons]
    obtain ⟨sent, places, hc, hv, ho⟩ := runNode_visits p r node first
    obtain ⟨sent', places', hc', hv', ho'⟩ := ih (first + 1) (r.runNode p node first)
    -- The places of a node have its number, and the nodes after it have larger ones.
    have hlater : ∀ a ∈ places, ∀ b ∈ places', a.rank < b.rank := by
      intro a ha b hb
      have hfirst := (ho a ha).rank_fst
      have hrest := (ho' b hb).le_rank_fst
      exact Prod.Lex.lt_iff.2 (Or.inl (by omega))
    refine ⟨sent ++ sent', places ++ places', hc.trans hc', ⟨?_, ?_⟩, ?_⟩
    · rw [List.map_append, List.map_append, hv.keys, hv'.keys]
    · exact List.pairwise_append.2 ⟨hv.order, hv'.order, hlater⟩
    · intro place hm
      rcases List.mem_append.1 hm with hm | hm
      · exact ⟨0, node, rfl, (ho place hm).mono fun _ _ h => hc'.get?_of_some h⟩
      · obtain ⟨i, other, hi, hp⟩ := ho' place hm
        refine ⟨i + 1, other, by simpa using hi, ?_⟩
        have hshift : first + (i + 1) = first + 1 + i := by omega
        rw [hshift]
        exact hp

end Run

/-- Two providers give the same replies, save that one may fail or reply nothing where the other
does one of these two. -/
def Provider.SameOutputs (p q : Provider) : Prop :=
  ∀ earlier prompt, p.reply earlier prompt = q.reply earlier prompt ∨
    IsSilent (p.reply earlier prompt) ∧ IsSilent (q.reply earlier prompt)

namespace Run

/-- Two runs that differ in the replies of their logs only. -/
structure Alike (r r' : Run) : Prop where
  asked : r.asked = r'.asked
  environment : r.environment = r'.environment
  requests : r.calls.map (fun c => (c.key, c.prompt)) = r'.calls.map fun c => (c.key, c.prompt)
  failure : r.failure = r'.failure

namespace Alike

variable {p q : Provider} {r r' : Run}

theorem refl (r : Run) : Alike r r :=
  ⟨rfl, rfl, rfl, rfl⟩

theorem stop (h : Alike r r') (step : Nat) (kind : Kind) (cause : Cause) :
    Alike (r.stop step kind cause) (r'.stop step kind cause) :=
  ⟨h.asked, h.environment, h.requests, rfl⟩

theorem output? (hp : p.SameOutputs q) (h : Alike r r') (key prompt : Text) :
    (r.call p key prompt).output? = (r'.call q key prompt).output? := by
  have hreply : (r'.call q key prompt).reply = q.reply r.asked prompt := by
    rw [h.asked]
    rfl
  rcases hp r.asked prompt with he | ⟨hsp, hsq⟩
  · have heq : (r.call p key prompt).reply = (r'.call q key prompt).reply := by
      rw [hreply]
      exact he
    simp only [Call.output?, heq]
  · have hsilent : IsSilent (r'.call q key prompt).reply := by
      rw [hreply]
      exact hsq
    rw [Call.output?_eq_none_iff.2 hsilent]
    exact Call.output?_eq_none_iff.2 hsp

theorem record (h : Alike r r') (key prompt : Text) :
    Alike (r.record (r.call p key prompt)) (r'.record (r'.call q key prompt)) :=
  ⟨by simp [Run.record, h.asked], h.environment, by simp [Run.record, h.requests], h.failure⟩

theorem ask (hp : p.SameOutputs q) (h : Alike r r') (step : Nat) (kind : Kind)
    (key prompt : Text) : Alike (r.ask p step kind key prompt) (r'.ask q step kind key prompt) := by
  have ho := output? hp h key prompt
  have hrec : Alike (r.record (r.call p key prompt)) (r'.record (r'.call q key prompt)) :=
    h.record key prompt
  cases hq : (r'.call q key prompt).output? with
  | none =>
    rw [ask_of_none (ho.trans hq), ask_of_none hq]
    exact hrec
  | some output =>
    cases hk : r'.environment.get? key with
    | none =>
      rw [ask_of_new (ho.trans hq) (h.environment ▸ hk), ask_of_new hq hk]
      exact ⟨hrec.asked, by rw [h.environment], hrec.requests, hrec.failure⟩
    | some value =>
      rw [ask_of_bound (ho.trans hq) (h.environment ▸ hk), ask_of_bound hq hk]
      exact hrec.stop step kind _

theorem runItem (hp : p.SameOutputs q) (h : Alike r r') (step : Nat) (heading : Heading)
    (text : Text) (item : Json) (index : Nat) :
    Alike (r.runItem p step heading text item index)
      (r'.runItem q step heading text item index) := by
  unfold Run.runItem
  rw [h.failure, h.environment]
  split_ifs
  · exact h
  · cases promptOfItem r'.environment heading text item with
    | ok prompt => exact h.ask hp step heading.kind _ prompt
    | error u => exact h.stop step heading.kind _

theorem runItems (hp : p.SameOutputs q) (h : Alike r r') (step : Nat) (heading : Heading)
    (text : Text) (index : Nat) (items : List Json) :
    Alike (r.runItems p step heading text index items)
      (r'.runItems q step heading text index items) := by
  induction items generalizing index r r' with
  | nil => exact h
  | cons item items ih =>
    rw [runItems_cons, runItems_cons]
    exact ih (h.runItem hp step heading text item index) (index + 1)

theorem runNode (hp : p.SameOutputs q) (h : Alike r r') (node : Node) (step : Nat) :
    Alike (r.runNode p node step) (r'.runNode q node step) := by
  unfold Run.runNode
  rw [h.failure]
  split_ifs
  · exact h
  · cases node with
    | branch heading references children => exact h.stop step heading.kind _
    | leaf heading references text =>
      dsimp only
      cases heading.kind with
      | default =>
        dsimp only [runPrompt]
        rw [h.environment]
        cases render r'.environment ∅ text with
        | ok prompt => exact h.ask hp step .default _ prompt
        | error u => exact h.stop step .default _
      | loop source aggregate =>
        dsimp only [runLoop]
        cases source with
        | none => exact h.stop step heading.kind _
        | some name =>
          dsimp only
          rw [h.environment]
          cases r'.environment.get? name with
          | none => exact h.stop step heading.kind _
          | some value =>
            dsimp only
            cases value.items? with
            | none => exact h.stop step heading.kind _
            | some items => exact h.runItems hp step heading text 1 items

theorem runNodesFrom (hp : p.SameOutputs q) (h : Alike r r') (first : Nat) (nodes : List Node) :
    Alike (r.runNodesFrom p first nodes) (r'.runNodesFrom q first nodes) := by
  induction nodes generalizing first r r' with
  | nil => exact h
  | cons node nodes ih =>
    rw [runNodesFrom_cons, runNodesFrom_cons]
    exact ih (h.runNode hp node first) (first + 1)

end Alike

/-- The calls that a node has to make as step `n` of a run that has come to it: one for a prompt that
can be filled, or one for each item that the loop comes to and whose prompt can be filled. -/
inductive Due (p : Provider) (r : Run) (n : Nat) : Node → Call → Prop where
  | prompt {heading : Heading} {references : List Text} {text prompt : Text}
      (hkind : heading.kind = .default) (hprompt : render r.environment ∅ text = .ok prompt) :
      Due p r n (.leaf heading references text)
        ⟨Step.outputKey n, prompt, p.reply r.asked prompt⟩
  | item {heading : Heading} {references : List Text} {text source : Text} {aggregate : Bool}
      {value : Value} {done rest : List Json} {item : Json} {reached : Run} {filled prompt : Text}
      (hkind : heading.kind = .loop (some source) aggregate)
      (hvalue : r.environment.get? source = some value)
      (hitems : value.items? = some (done ++ item :: rest))
      (hreached : reached = r.runItems p n heading text 1 done) (hfailure : reached.failure = none)
      (hfilled : render reached.environment
        (.ofList ((heading.declared.take 1).map fun name => (name, .ofJson item))) text = .ok filled)
      (hprompt : prompt = filled ++ [' ', '\n'] ++ item.compact) :
      Due p r n (.leaf heading references text)
        ⟨Step.itemKey n (done.length + 1), prompt, p.reply reached.asked prompt⟩

theorem Due.mem_calls {p : Provider} {r : Run} {n : Nat} {node : Node} {c : Call}
    (h : Due p r n node c) (hr : r.failure = none) : c ∈ (r.runNode p node n).calls := by
  cases h with
  | prompt hkind hprompt =>
    rw [runNode_prompt hr hkind, runPrompt, hprompt]
    dsimp only
    rw [(ask_continues p n .default _ _ r).calls]
    exact List.mem_append_right _ (List.mem_singleton.2 rfl)
  | @item heading references text source aggregate value done rest item reached filled prompt hkind
      hvalue hitems hreached hfailure hfilled hprompt =>
    have hok : promptOfItem reached.environment heading text item = .ok prompt := by
      rw [promptOfItem_eq, hfilled, hprompt]
      rfl
    have hnode : r.runNode p (.leaf heading references text) n =
        (reached.ask p n heading.kind (Step.itemKey n (1 + done.length)) prompt).runItems p n heading
          text (1 + done.length + 1) rest := by
      rw [runNode_loop hr hkind]
      simp only [runLoop, hvalue, hitems]
      rw [runItems_append, ← hreached, runItems_cons, runItem_of_ok hfailure hok]
    obtain ⟨sent, hlater, -⟩ := runItems_continues p n heading text (1 + done.length + 1) rest
      (reached.ask p n heading.kind (Step.itemKey n (1 + done.length)) prompt)
    rw [hnode, hlater.calls, (ask_continues p n heading.kind _ prompt reached).calls,
      Nat.add_comm 1]
    exact List.mem_append_left _ (List.mem_append_right _ (List.mem_singleton.2 rfl))

/-- What a run leaves of the environment `e` that it starts from, whether it fails or not. -/
structure Commits (p : Provider) (earlier : List Text) (nodes : List Node) (e : Environment)
    (r : Run) : Prop where
  /-- No value changes. -/
  kept : ∀ name value, e.get? name = some value → r.environment.get? name = some value
  /-- The log holds what the provider was asked and what it replied. -/
  answered : Answered p earlier r.calls
  /-- Calls are made for places of the nodes, in the order of the places. -/
  visits : ∃ places, VisitsInOrder places r.calls ∧
    ∀ place ∈ places, Place.OfNodes r.environment 1 nodes place
  /-- Each node that the run comes to makes the calls that it has to make. -/
  asks : ∀ before node after, nodes = before ++ node :: after →
    ((start earlier e).runNodes p before).failure = none →
      ∀ c, Due p ((start earlier e).runNodes p before) (before.length + 1) node c → c ∈ r.calls
  /-- No output is asked for twice. -/
  nodup : (r.calls.map Call.key).Nodup
  /-- A name gets a value from a call for it that was answered with some text. -/
  bound : ∀ name, e.get? name = none → ∀ value, r.environment.get? name = some value ↔
    ∃ c ∈ r.calls, c.key = name ∧ ∃ text, c.reply = .ok text ∧ text ≠ [] ∧ value = .string text
  /-- A name that no call was made for keeps what it has, the names that loops bind included. -/
  unasked : ∀ name, (∀ c ∈ r.calls, c.key ≠ name) →
    r.environment.get? name = e.get? name

/-- A run is a log of commits. Failures and empty replies make no difference to each other. -/
theorem runNodes_commits (p : Provider) (earlier : List Text) (e : Environment)
    (nodes : List Node) :
    Commits p earlier nodes e ((start earlier e).runNodes p nodes) ∧
      ∀ q : Provider, p.SameOutputs q →
        Alike ((start earlier e).runNodes p nodes) ((start earlier e).runNodes q nodes) := by
  refine ⟨?_, fun q hq => (Alike.refl _).runNodesFrom hq 1 nodes⟩
  obtain ⟨sent, places, hc, hv, ho⟩ := runNodesFrom_visits p 1 nodes (start earlier e)
  have hcalls : ((start earlier e).runNodes p nodes).calls = sent := by
    simpa [start, runNodes] using hc.calls
  have hnodup : (sent.map Call.key).Nodup := by
    rw [hv.keys]
    exact Place.nodup_keys hv.order
  constructor
  · exact fun name value h => hc.get?_of_some h
  · rw [hcalls]
    exact hc.answered
  · rw [hcalls]
    exact ⟨places, hv, ho⟩
  · rintro before node after rfl hreached c hdue
    have hmem := hdue.mem_calls hreached
    rw [runNodes, runNodesFrom_append, runNodesFrom_cons, Nat.add_comm 1]
    obtain ⟨later, -, hlater, -⟩ := runNodesFrom_visits p (before.length + 1 + 1) after
      (((start earlier e).runNodes p before).runNode p node (before.length + 1))
    exact hlater.calls ▸ List.mem_append_left later hmem
  · rw [hcalls]
    exact hnodup
  · intro name hname value
    rw [hcalls]
    -- The run started without the name, so that its value is what the log holds under it.
    have hget : ((start earlier e).runNodes p nodes).environment.get? name =
        (outputOf sent name).map Value.string := by
      have h := hc.get? name
      rw [show (start earlier e).environment.get? name = none from hname, Option.none_or] at h
      exact h
    rw [hget, Option.map_eq_some_iff]
    constructor
    · rintro ⟨text, ht, rfl⟩
      obtain ⟨c, hm, hk, hout⟩ := (outputOf_eq_some_iff hnodup).1 ht
      obtain ⟨hreply, hne⟩ := Call.output?_eq_some_iff.1 hout
      exact ⟨c, hm, hk, text, hreply, hne, rfl⟩
    · rintro ⟨c, hm, hk, text, hreply, hne, rfl⟩
      have hout := Call.output?_eq_some_iff.2 ⟨hreply, hne⟩
      exact ⟨text, (outputOf_eq_some_iff hnodup).2 ⟨c, hm, hk, hout⟩, rfl⟩
  · intro name hn
    rw [hcalls] at hn
    exact hc.get?_of_ne hn

def greeting (text : Text) : Node :=
  .leaf ⟨.default, [], {}⟩ [] text

theorem runNodes_greeting : (start [] ∅).runNodes (.scripted [none]) [greeting "Hi".toList] =
    (start [] ∅).record ⟨Step.outputKey 1, "Hi".toList, .error .scripted⟩ := by
  have hrender : render (start [] ∅).environment ∅ "Hi".toList = .ok "Hi".toList := by cbv
  rw [runNodes, runNodesFrom_cons, runNodesFrom_nil, greeting, runNode_prompt rfl rfl, runPrompt,
    hrender]
  rfl

/-- A first call that fails, and one that is answered with nothing. The second call is made either
way. -/
theorem runNodes_commits_scripted :
    ⟨Step.outputKey 2, "Ho".toList, .ok "Ho".toList⟩ ∈ ((start [] ∅).runNodes (.scripted [none])
        [greeting "Hi".toList, greeting "Ho".toList]).calls ∧
      (Provider.scripted [none]).SameOutputs (.scripted [some []]) ∧
      Alike
        ((start [] ∅).runNodes (.scripted [none]) [greeting "Hi".toList, greeting "Ho".toList])
        ((start [] ∅).runNodes (.scripted [some []])
          [greeting "Hi".toList, greeting "Ho".toList]) := by
  have hsame : (Provider.scripted [none]).SameOutputs (.scripted [some []]) := by
    intro earlier prompt
    cases earlier with
    | nil => exact Or.inr ⟨Or.inr ⟨_, rfl⟩, Or.inl rfl⟩
    | cons first earlier => exact Or.inl rfl
  obtain ⟨hcommits, halike⟩ := runNodes_commits (.scripted [none]) [] ∅
    [greeting "Hi".toList, greeting "Ho".toList]
  refine ⟨?_, hsame, halike _ hsame⟩
  apply hcommits.asks [greeting "Hi".toList] (greeting "Ho".toList) [] rfl
  · rw [runNodes_greeting]
    rfl
  · rw [runNodes_greeting]
    have hrender : render ∅ ∅ "Ho".toList = .ok "Ho".toList := by cbv
    exact .prompt rfl hrender

end Run

end PromptChain
