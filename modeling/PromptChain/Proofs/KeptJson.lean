import PromptChain.Proofs.CanonicalJson
import PromptChain.Proofs.ExactIntegers
import PromptChain.Proofs.Lists
import PromptChain.Proofs.WrittenJson
import PromptChain.Value

/-! JSON values that stay what they are, and are written the same, when they are taken as values and
given back as JSON. -/
namespace PromptChain

namespace Json

/-- The JSON value that is given back for one that was taken as a value. -/
def viaValue (json : Json) : Json :=
  (Value.ofJson json).toJson

theorem jsonsWith_ofJsons (items : List Json) :
    Value.jsonsWith Value.numberJson (Value.ofJsons items) = items.map viaValue := by
  induction items with
  | nil => rfl
  | cons item items ih =>
    rw [Value.ofJsons, Value.jsonsWith, ih]
    rfl

theorem ofMembers_eq (members : List (Text × Json)) :
    Value.ofMembers members = members.map fun member => (member.1, Value.ofJson member.2) := by
  induction members with
  | nil => rfl
  | cons member members ih =>
    obtain ⟨name, value⟩ := member
    rw [Value.ofMembers, ih, List.map_cons]

theorem membersWith_ofMembers (members : List (Text × Json)) :
    Value.membersWith Value.numberJson (Value.ofMembers members) =
      members.map fun member => (member.1, viaValue member.2) := by
  induction members with
  | nil => rfl
  | cons member members ih =>
    obtain ⟨name, value⟩ := member
    rw [Value.ofMembers, Value.membersWith, ih]
    rfl

theorem viaValue_array (items : List Json) :
    viaValue (.array items) = .array (items.map viaValue) :=
  congrArg Json.array (jsonsWith_ofJsons items)

theorem viaValue_object {members : List (Text × Json)} (h : Table.Sorted members) :
    viaValue (.object members) =
      .object (members.map fun member => (member.1, viaValue member.2)) := by
  have hsorted : Table.Sorted (Value.ofMembers members) := by
    rw [ofMembers_eq]
    exact h.map Value.ofJson
  change Json.object (Value.membersWith Value.numberJson
    (Table.ofList (Value.ofMembers members)).entries) = _
  rw [hsorted.entries_ofList, membersWith_ofMembers]

/-- What a value keeps of a JSON value. Integers are kept that a number of 53 bits can stand for; other
numbers are kept if they are no integers, and null never is. -/
inductive Kept : Json → Prop where
  | bool (b : Bool) : Kept (.bool b)
  | string (s : Text) : Kept (.string s)
  | integer {n : Int} (hsize : n.natAbs < 2 ^ 63) (h : Binary64.Representable n.natAbs) :
      Kept (.number (.integer n))
  | float {x : Binary64} (h : ¬(Binary64.one ∣ x.magnitude ∧ x.magnitude < 2 ^ 63 * Binary64.one)) :
      Kept (.number (.float x))
  | array {items : List Json} (h : ∀ item ∈ items, Kept item) : Kept (.array items)
  | object {members : List (Text × Json)} (h : ∀ member ∈ members, Kept member.2) :
      Kept (.object members)

section Numbers

theorem viaValue_number (n : JsonNumber) :
    viaValue (.number n) = Value.numberJson (Value.numberOfJson n) := by
  rw [viaValue, Value.ofJson, Value.toJson, Value.jsonWith]

theorem viaValue_integer_iff {n : Int} :
    viaValue (.number (.integer n)) = .number (.integer n) ↔ Kept (.number (.integer n)) := by
  have hkept : Kept (.number (.integer n)) ↔
      n.natAbs < 2 ^ 63 ∧ Binary64.Representable n.natAbs := by
    constructor
    · rintro (_ | _)
      exact ⟨‹_›, ‹_›⟩
    · exact fun h => .integer h.1 h.2
  rw [hkept, ← Binary64.bind_ofInt?_toInt?_iff, viaValue_number, Value.numberOfJson]
  cases hx : Binary64.ofInt? n with
  | none => simp [Extended.ofRounded, Value.numberJson]
  | some x =>
    rw [Extended.ofRounded, Value.numberJson, Option.bind_some]
    cases hm : x.toInt? with
    | none => simp
    | some m => simp

theorem viaValue_float_iff {x : Binary64} :
    viaValue (.number (.float x)) = .number (.float x) ↔ Kept (.number (.float x)) := by
  have hkept : Kept (.number (.float x)) ↔ x.toInt? = none := by
    rw [Binary64.toInt?_eq_none_iff]
    constructor
    · rintro (_ | _)
      assumption
    · exact fun h => .float h
  rw [hkept, viaValue_number, Value.numberOfJson, Value.numberJson]
  cases x.toInt? with
  | none => simp
  | some m => simp

theorem viaValue_number_iff {n : JsonNumber} :
    viaValue (.number n) = .number n ↔ Kept (.number n) := by
  cases n with
  | integer n => exact viaValue_integer_iff
  | float x => exact viaValue_float_iff

end Numbers

/-- A canonical value comes back from a value if all of it is kept. -/
theorem viaValue_eq_self_iff {json : Json} (h : json.IsCanonical) :
    json.viaValue = json ↔ json.Kept := by
  induction json using Json.induction with
  | null =>
    constructor
    · intro h
      cases h
    · intro h
      cases h
  | bool b => exact ⟨fun _ => .bool b, fun _ => rfl⟩
  | string s => exact ⟨fun _ => .string s, fun _ => rfl⟩
  | number n => exact viaValue_number_iff
  | array items ih =>
    cases h with | array h =>
    have hitems : items.map viaValue = items ↔ ∀ item ∈ items, item.Kept := by
      rw [List.map_eq_self_iff]
      exact forall₂_congr fun item hitem => ih item hitem (h item hitem)
    rw [viaValue_array, array.injEq, hitems]
    constructor
    · exact .array
    · rintro (_ | _)
      assumption
  | object members ih =>
    cases h with | object hsorted h =>
    have hmembers : members.map (fun member => (member.1, viaValue member.2)) = members ↔
        ∀ member ∈ members, member.2.Kept := by
      rw [List.map_eq_self_iff]
      refine forall₂_congr fun member hmember => ?_
      rw [← ih member hmember (h member hmember), Prod.ext_iff]
      simp
    rw [viaValue_object hsorted, object.injEq, hmembers]
    constructor
    · exact .object
    · rintro (_ | _)
      assumption

section Texts

theorem viaValue_number_cases (n : JsonNumber) :
    viaValue (.number n) = .null ∨ ∃ m, viaValue (.number n) = .number m ∧
      (writeNumber m = writeNumber n → m = n) := by
  rw [viaValue_number]
  cases n with
  | integer n =>
    rw [Value.numberOfJson]
    cases Binary64.ofInt? n with
    | none => exact .inl rfl
    | some x =>
      rw [Extended.ofRounded, Value.numberJson]
      cases x.toInt? with
      | none => exact .inr ⟨_, rfl, fun h => absurd h.symm (ofInt_ne_writeFloat n x)⟩
      | some m => exact .inr ⟨_, rfl, fun h => congrArg JsonNumber.integer (Text.ofInt_injective h)⟩
  | float x =>
    rw [Value.numberOfJson, Value.numberJson]
    cases x.toInt? with
    | none => exact .inr ⟨_, rfl, fun _ => rfl⟩
    | some m => exact .inr ⟨_, rfl, fun h => absurd h (ofInt_ne_writeFloat m x)⟩

theorem kept_of_number_append {n : JsonNumber} {s t : Text} (hs : Ends s) (ht : Ends t)
    (h : (viaValue (.number n)).compact ++ s = writeNumber n ++ t) :
    Kept (.number n) ∧ s = t := by
  rcases viaValue_number_cases n with hnull | ⟨m, hm, hinj⟩
  · -- A number does not start with the first letter of null.
    rw [hnull, compact] at h
    obtain ⟨c, w, hw⟩ := List.exists_cons_of_ne_nil (writeNumber_ne_nil n)
    have hc : isNumeric c = true := isNumeric_of_mem_writeNumber (hw ▸ List.mem_cons_self)
    rw [hw] at h
    have hn : 'n' = c := (List.cons.inj h).1
    rw [← hn] at hc
    exact absurd hc (by decide)
  · rw [hm, compact] at h
    obtain ⟨hnumber, hrest⟩ := writeNumber_append_inj hs ht h
    rw [hinj hnumber] at hm
    exact ⟨viaValue_number_iff.1 hm, hrest⟩

/-- A canonical value that is written the same after it was taken as a value is kept, whatever
follows it. -/
theorem kept_of_compact_append {json : Json} (h : json.IsCanonical) {s t : Text} (hs : Ends s)
    (ht : Ends t) (heq : json.viaValue.compact ++ s = json.compact ++ t) :
    json.Kept ∧ s = t := by
  induction json using Json.induction generalizing s t with
  | null =>
    have hhead : '"' = 'n' := (List.cons.inj heq).1
    exact absurd hhead (by decide)
  | bool b => exact ⟨.bool b, List.append_cancel_left heq⟩
  | string w => exact ⟨.string w, List.append_cancel_left heq⟩
  | number n => exact kept_of_number_append hs ht heq
  | array items ih =>
    cases h with | array h =>
    rw [viaValue_array, compact, compact, compactItems_eq, compactItems_eq, List.map_map] at heq
    simp only [List.cons_append, List.append_assoc, List.nil_append] at heq
    obtain ⟨hkept, hrest⟩ := forall_of_intercalate_append
      (fun item hitem u v hu hv => ih item hitem (h item hitem) hu hv)
      (ends_cons s rfl) (ends_cons t rfl) (List.cons.inj heq).2
    exact ⟨.array hkept, (List.cons.inj hrest).2⟩
  | object members ih =>
    cases h with | object hsorted h =>
    rw [viaValue_object hsorted, compact, compact, compactMembers_eq, compactMembers_eq,
      List.map_map] at heq
    simp only [List.cons_append, List.append_assoc, List.nil_append] at heq
    have hmember : ∀ member ∈ members, ∀ u v, Ends u → Ends v →
        (compactMember ∘ fun member => (member.1, viaValue member.2)) member ++ u =
          compactMember member ++ v → member.2.Kept ∧ u = v := by
      intro member hm u v hu hv hw
      simp only [Function.comp_apply, compactMember, List.append_assoc] at hw
      exact ih member hm (h member hm) hu hv (List.cons.inj (List.append_cancel_left hw)).2
    obtain ⟨hkept, hrest⟩ := forall_of_intercalate_append hmember (ends_cons s rfl)
      (ends_cons t rfl) (List.cons.inj heq).2
    exact ⟨.object hkept, (List.cons.inj hrest).2⟩

/-- What is not kept is not written the same. -/
theorem compact_viaValue_eq_iff {json : Json} (h : json.IsCanonical) :
    json.viaValue.compact = json.compact ↔ json.Kept := by
  have hend : Ends [] := by
    intro c hc
    cases hc
  constructor
  · intro heq
    exact (kept_of_compact_append h hend hend (congrArg (· ++ []) heq)).1
  · intro hkept
    rw [(viaValue_eq_self_iff h).2 hkept]

end Texts

end Json

end PromptChain
