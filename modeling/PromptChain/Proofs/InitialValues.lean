import PromptChain.Proofs.Tables
import PromptChain.Run

/-! The environment that a run starts from. -/
namespace PromptChain

/-- A run starts with values for the required names that one was supplied for, and no others. -/
theorem Script.has_initialEnvironment (required : List Text) (supplied : Table Value)
    (name : Text) :
    Table.has name (initialEnvironment required supplied) = true ↔
      name ∈ required ∧ Table.has name supplied = true := by
  unfold initialEnvironment
  rw [Table.has_ofList]
  constructor
  · intro h
    obtain ⟨⟨key, value⟩, hm, rfl⟩ := List.mem_map.1 h
    obtain ⟨other, hr, ho⟩ := List.mem_filterMap.1 hm
    obtain ⟨v, hv, he⟩ := Option.map_eq_some_iff.1 ho
    cases he
    exact ⟨hr, by simp [Table.has, hv]⟩
  · rintro ⟨hr, hs⟩
    obtain ⟨value, hv⟩ := Option.isSome_iff_exists.1 hs
    apply List.mem_map.2
    refine ⟨(name, value), List.mem_filterMap.2 ⟨name, hr, ?_⟩, rfl⟩
    rw [hv]
    rfl

end PromptChain
