import PromptChain.Environment
import PromptChain.Proofs.KeptJson
import PromptChain.Proofs.ReadBack

/-! An environment is read back from the text in which it is kept, as far as numbers are integers
that a binary floating-point number can tell apart. -/
namespace PromptChain

namespace Binary64

/-- A number in the form that rounding gives it: with all of its 53 bits, or in the least units. -/
def IsNormal (x : Binary64) : Prop :=
  x.significand < 2 ^ 53 ∧ (x.power = 0 ∨ 2 ^ 52 ≤ x.significand)

theorem powerFor_magnitude {x : Binary64} (h : x.IsNormal) : powerFor x.magnitude = x.power := by
  obtain ⟨hlt, hform⟩ := h
  rw [magnitude_eq]
  by_cases hpower : x.power = 0
  · rw [hpower, powerFor, limit_eq, if_pos (by omega)]
  · have hge : 2 ^ 52 ≤ x.significand := hform.resolve_left hpower
    have hpos : 0 < 2 ^ x.power := Nat.pow_pos (by omega)
    have hlower : 2 ^ (52 + x.power) ≤ x.significand * 2 ^ x.power := by
      rw [Nat.pow_add]
      exact Nat.mul_le_mul_right _ hge
    have hupper : x.significand * 2 ^ x.power < 2 ^ (53 + x.power) := by
      rw [Nat.pow_add]
      exact Nat.mul_lt_mul_of_pos_right hlt hpos
    have hlimit : ¬x.significand * 2 ^ x.power < limit := by
      have hpow : 2 ^ 53 ≤ 2 ^ (52 + x.power) := Nat.pow_le_pow_right (by omega) (by omega)
      rw [limit_eq]
      omega
    have hne : x.significand * 2 ^ x.power ≠ 0 := by
      have := Nat.pow_pos (n := 52 + x.power) (show 0 < 2 by omega)
      omega
    have hlog : (x.significand * 2 ^ x.power).log2 = 52 + x.power := by
      have hle := (Nat.le_log2 hne).2 hlower
      have hlt := (Nat.log2_lt hne).2 hupper
      omega
    rw [powerFor, if_neg hlimit, hlog]
    omega

/-- A normal number is what its integer is rounded to. -/
theorem ofInt?_of_magnitude {x : Binary64} (hx : x.IsNormal) {n : Nat}
    (hmagnitude : x.magnitude = n * one) (hn : n < 2 ^ 63) (hzero : n = 0 → x.negative = false) :
    ofInt? (if x.negative then -(n : Int) else n) = some x := by
  have habs : (if x.negative then -(n : Int) else n).natAbs = n := by
    split_ifs <;> omega
  have hsign : decide ((if x.negative then -(n : Int) else n) < 0) = x.negative := by
    cases hnegative : x.negative with
    | false =>
      rw [decide_eq_false_iff_not, if_neg Bool.false_ne_true]
      omega
    | true =>
      have hne : n ≠ 0 := by
        intro heq
        rw [hzero heq] at hnegative
        cases hnegative
      rw [decide_eq_true_iff, if_pos rfl]
      omega
  have hpower := powerFor_magnitude hx
  have hpos : 0 < 2 ^ x.power := Nat.pow_pos (by omega)
  have hdvd : 2 ^ powerFor x.magnitude ∣ x.magnitude := by
    rw [hpower, magnitude_eq]
    exact Nat.dvd_mul_left _ _
  have hbound : powerFor x.magnitude ≤ 2045 := by
    rw [hmagnitude]
    exact powerFor_le hn
  have hround := round?_of_dvd x.negative hdvd hbound
  rw [hpower, magnitude_eq, Nat.mul_div_cancel _ hpos, ← magnitude_eq] at hround
  rw [ofInt?, habs, hsign, ← hmagnitude, hround]

end Binary64

namespace Value

/-- A value that a file can keep, nested at most `depth` deep: its numbers are integers below 2^53 in
magnitude, no negative zeros, and its maps are tables. -/
inductive Storable : (depth : Nat) → Value → Prop where
  | bool {depth : Nat} (b : Bool) : Storable depth (.bool b)
  | string {depth : Nat} (s : Text) : Storable depth (.string s)
  | number {depth : Nat} {x : Binary64} {n : Nat} (hx : x.IsNormal)
      (hmagnitude : x.magnitude = n * Binary64.one) (hn : n < 2 ^ 53)
      (hzero : n = 0 → x.negative = false) : Storable depth (.number (.finite x))
  | array {depth : Nat} {items : List Value} (h : ∀ item ∈ items, Storable depth item) :
      Storable (depth + 1) (.array items)
  | map {depth : Nat} {entries : List (Text × Value)} (hsorted : Table.Sorted entries)
      (h : ∀ entry ∈ entries, Storable depth entry.2) : Storable (depth + 1) (.map entries)

theorem jsonsWith_eq (number : Extended → Json) (items : List Value) :
    jsonsWith number items = items.map (jsonWith number) := by
  induction items with
  | nil => rfl
  | cons item items ih => rw [jsonsWith, ih, List.map_cons]

theorem membersWith_eq (number : Extended → Json) (entries : List (Text × Value)) :
    membersWith number entries = entries.map fun entry => (entry.1, jsonWith number entry.2) := by
  induction entries with
  | nil => rfl
  | cons entry entries ih =>
    obtain ⟨name, value⟩ := entry
    rw [membersWith, ih, List.map_cons]

theorem ofJsons_eq (items : List Json) : ofJsons items = items.map ofJson := by
  induction items with
  | nil => rfl
  | cons item items ih => rw [ofJsons, ih, List.map_cons]

theorem toJson_array (items : List Value) : (array items).toJson = .array (items.map toJson) :=
  congrArg Json.array (jsonsWith_eq numberJson items)

theorem toJson_map (entries : List (Text × Value)) :
    (map entries).toJson = .object (entries.map fun entry => (entry.1, toJson entry.2)) :=
  congrArg Json.object (membersWith_eq numberJson entries)

theorem toJson_number {x : Binary64} {n : Nat} (hmagnitude : x.magnitude = n * Binary64.one)
    (hn : n < 2 ^ 53) :
    (number (.finite x)).toJson = .number (.integer (if x.negative then -(n : Int) else n)) := by
  rw [toJson, jsonWith, numberJson, Binary64.toInt?_of_magnitude hmagnitude (by omega)]

section Storable

variable {depth : Nat} {v : Value}

theorem Storable.plain (h : v.Storable depth) : v.toJson.Plain depth := by
  induction h with
  | bool b => exact .bool b
  | string s => exact .string s
  | @number depth x n _ hmagnitude hn _ =>
    rw [toJson_number hmagnitude hn]
    apply Json.Plain.integer <;> split_ifs <;> omega
  | array _ ih =>
    rw [toJson_array]
    exact .array (List.forall_mem_map.2 ih)
  | map _ _ ih =>
    rw [toJson_map]
    exact .object (List.forall_mem_map.2 ih)

theorem Storable.isCanonical (h : v.Storable depth) : v.toJson.IsCanonical := by
  induction h with
  | bool b => exact .bool b
  | string s => exact .string s
  | number _ hmagnitude hn =>
    rw [toJson_number hmagnitude hn]
    exact .number _
  | array _ ih =>
    rw [toJson_array]
    exact .array (List.forall_mem_map.2 ih)
  | map hsorted _ ih =>
    rw [toJson_map]
    exact .object (hsorted.map toJson) (List.forall_mem_map.2 ih)

theorem map_ofJson_toJson {entries : List (Text × Value)}
    (h : ∀ entry ∈ entries, ofJson entry.2.toJson = entry.2) :
    (entries.map fun entry => (entry.1, entry.2.toJson)).map
      (fun member => (member.1, ofJson member.2)) = entries := by
  rw [List.map_map]
  exact List.map_eq_self_iff.2 fun entry he => Prod.ext rfl (h entry he)

/-- A value that can be kept comes back from its JSON form. -/
theorem Storable.ofJson_toJson (h : v.Storable depth) : ofJson v.toJson = v := by
  induction h with
  | bool b => rfl
  | string s => rfl
  | number hx hmagnitude hn hzero =>
    rw [toJson_number hmagnitude hn, ofJson, numberOfJson,
      Binary64.ofInt?_of_magnitude hx hmagnitude (by omega) hzero]
    rfl
  | @array depth items _ ih =>
    have hitems : (items.map toJson).map ofJson = items := by
      rw [List.map_map]
      exact List.map_eq_self_iff.2 ih
    rw [toJson_array, ofJson, ofJsons_eq, hitems]
  | @map depth entries hsorted _ ih =>
    rw [toJson_map, ofJson, Json.ofMembers_eq, map_ofJson_toJson ih, hsorted.entries_ofList]

end Storable

end Value

namespace Environment

/-- A kept environment is read back. The text that is written over several lines holds an object
whose members are the environment, and the text of each value on one line holds the value. -/
theorem read_back {e : Environment} (h : ∀ entry ∈ e.entries, entry.2.Storable 126) :
    (∃ members, Json.read? e.toJson.pretty = some (.object members) ∧
      members.map (fun member => (member.1, Value.ofJson member.2)) = e.entries) ∧
    ∀ entry ∈ e.entries, (Json.read? entry.2.jsonText).map Value.ofJson = some entry.2 := by
  constructor
  · have hmap : (Value.map e.entries).Storable 127 := .map e.sorted h
    have hread := Json.read?_pretty (Nat.le_refl 127) hmap.plain hmap.isCanonical
    rw [Value.toJson_map] at hread
    refine ⟨_, ?_, Value.map_ofJson_toJson fun entry he => (h entry he).ofJson_toJson⟩
    rwa [toJson, Value.membersWith_eq]
  · intro entry hentry
    have hvalue := h entry hentry
    have hread := Json.read?_compact (by decide) hvalue.plain hvalue.isCanonical
    rw [Value.jsonText, hread, Option.map_some, hvalue.ofJson_toJson]

/-- Values of each kind, with empty containers and with characters that have to be escaped. -/
def mixed : Environment where
  entries :=
    [("a".toList, .array [.number (.finite ⟨true, 6755399441055744, 1023⟩), .map [], .array []]),
      ("b\"".toList, .map [(['\n'], .string ['\\', '\x01', '\t', 'é']), ("n".toList, .bool true)])]
  sorted := by decide

theorem storable_mixed : ∀ entry ∈ mixed.entries, entry.2.Storable 126 := by
  have hthree : Binary64.magnitude ⟨true, 6755399441055744, 1023⟩ = 3 * Binary64.one := by
    decide +kernel
  intro entry he
  simp only [mixed, List.mem_cons, List.not_mem_nil, or_false] at he
  rcases he with rfl | rfl
  · refine .array fun item hi => ?_
    simp only [List.mem_cons, List.not_mem_nil, or_false] at hi
    rcases hi with rfl | rfl | rfl
    · exact .number ⟨by decide, .inr (by decide)⟩ hthree (by decide) (by decide)
    · exact .map .nil (by simp)
    · exact .array (by simp)
  · refine .map (by decide) fun entry he => ?_
    simp only [List.mem_cons, List.not_mem_nil, or_false] at he
    rcases he with rfl | rfl
    · exact .string _
    · exact .bool true

theorem read_back_mixed : (∀ entry ∈ mixed.entries, entry.2.Storable 126) ∧
    (∃ members, Json.read? (toJson mixed).pretty = some (.object members) ∧
      members.map (fun member => (member.1, Value.ofJson member.2)) = mixed.entries) ∧
    ∀ entry ∈ mixed.entries, (Json.read? entry.2.jsonText).map Value.ofJson = some entry.2 :=
  ⟨storable_mixed, read_back storable_mixed⟩

end Environment

end PromptChain
