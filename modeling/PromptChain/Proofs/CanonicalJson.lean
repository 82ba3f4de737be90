import PromptChain.Json.Basic
import PromptChain.Proofs.Tables

/-! Canonical JSON values: the members of their objects stand in the order of the names. -/
namespace PromptChain

namespace Json

/-- Induction on a value through its items and the values of its members. -/
@[elab_as_elim]
theorem induction {P : Json → Prop} (null : P .null) (bool : ∀ b, P (.bool b))
    (number : ∀ n, P (.number n)) (string : ∀ s, P (.string s))
    (array : ∀ items, (∀ item ∈ items, P item) → P (.array items))
    (object : ∀ members, (∀ member ∈ members, P member.2) → P (.object members)) (json : Json) :
    P json := by
  cases json with
  | null => exact null
  | bool b => exact bool b
  | number n => exact number n
  | string s => exact string s
  | array items =>
    exact array items fun item hitem => induction null bool number string array object item
  | object members =>
    exact object members fun member hmember =>
      induction null bool number string array object member.2
termination_by sizeOf json
decreasing_by
  · have hlt := List.sizeOf_lt_of_mem hitem
    simp only [Json.array.sizeOf_spec]
    omega
  · have hlt := List.sizeOf_lt_of_mem hmember
    obtain ⟨name, value⟩ := member
    simp only [Json.object.sizeOf_spec, Prod.mk.sizeOf_spec] at hlt ⊢
    omega

theorem canonicalItems_eq (items : List Json) : canonicalItems items = items.map canonical := by
  induction items with
  | nil => rfl
  | cons item items ih => rw [canonicalItems, ih, List.map_cons]

theorem canonicalMembers_eq (members : List (Text × Json)) :
    canonicalMembers members = members.map fun member => (member.1, canonical member.2) := by
  induction members with
  | nil => rfl
  | cons member members ih =>
    obtain ⟨name, value⟩ := member
    rw [canonicalMembers, ih, List.map_cons]

/-- A value whose objects have sorted members. -/
inductive IsCanonical : Json → Prop where
  | null : IsCanonical .null
  | bool (b : Bool) : IsCanonical (.bool b)
  | number (n : JsonNumber) : IsCanonical (.number n)
  | string (s : Text) : IsCanonical (.string s)
  | array {items : List Json} (h : ∀ item ∈ items, IsCanonical item) : IsCanonical (.array items)
  | object {members : List (Text × Json)} (hsorted : Table.Sorted members)
      (h : ∀ member ∈ members, IsCanonical member.2) : IsCanonical (.object members)

theorem isCanonical_canonical (json : Json) : json.canonical.IsCanonical := by
  induction json using Json.induction with
  | null => exact .null
  | bool b => exact .bool b
  | number n => exact .number n
  | string s => exact .string s
  | array items ih =>
    rw [canonical, canonicalItems_eq]
    refine .array fun item hitem => ?_
    obtain ⟨written, hwritten, rfl⟩ := List.mem_map.1 hitem
    exact ih written hwritten
  | object members ih =>
    rw [canonical, canonicalMembers_eq]
    refine .object (Table.ofList _).sorted fun member hmember => ?_
    obtain ⟨written, hwritten, rfl⟩ := List.mem_map.1 (Table.mem_of_mem_ofList hmember)
    exact ih written hwritten

end Json

end PromptChain
