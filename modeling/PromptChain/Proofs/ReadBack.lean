import PromptChain.Proofs.WrittenTokens

/-! Written values are read back, on one line or over many. Both forms are lists of texts in brackets
with commas between them and blanks around them, so that each bracket is treated once. -/
namespace PromptChain.Json

/-- A text of blanks that may stand between two parts. -/
def IsBlanks (blanks : Text) : Prop :=
  ∀ c ∈ blanks, Raw.isBlank (some c) = true

namespace Raw

section Blanks

theorem skip_append {blanks : Text} (hb : IsBlanks blanks) (s : List Symbol) :
    skip (blanks.map some ++ s) = skip s :=
  List.dropWhile_append_of_pos (List.forall_mem_map.2 hb)

theorem skip_skip (s : List Symbol) : skip (skip s) = skip s :=
  List.dropWhile_idempotent isBlank s

theorem skip_cons {c : Symbol} (hc : isBlank c = false) (s : List Symbol) :
    skip (c :: s) = c :: s :=
  List.dropWhile_cons_of_neg (by simp [hc])

theorem value?_congr {s t : List Symbol} (h : skip s = skip t) (fuel : Nat) :
    value? fuel s = value? fuel t := by
  cases fuel with
  | zero => rw [value?, value?]
  | succ fuel => rw [value?, value?, h]

theorem items?_skip (fuel : Nat) (s : List Symbol) : items? fuel (skip s) = items? fuel s := by
  cases fuel with
  | zero => rw [items?, items?]
  | succ fuel => rw [items?, items?, value?_congr (skip_skip s)]

theorem members?_skip (fuel : Nat) (s : List Symbol) :
    members? fuel (skip s) = members? fuel s := by
  cases fuel with
  | zero => rw [members?, members?]
  | succ fuel => rw [members?, members?, skip_skip]

theorem endsNumber_append {blanks : Text} (hb : IsBlanks blanks) {c : Symbol}
    (hc : endsNumber (some c) = true) (s : List Symbol) :
    endsNumber (blanks.map some ++ c :: s).head? = true := by
  cases blanks with
  | nil => exact hc
  | cons b blanks =>
    have hblank : isBlank (some b) = true := hb b List.mem_cons_self
    simp only [isBlank, Bool.or_eq_true, beq_iff_eq, Option.some.injEq] at hblank
    rcases hblank with ((rfl | rfl) | rfl) | rfl <;> rfl

/-- What is read as items does not start with a closing bracket. -/
theorem head?_skip_of_items? {fuel : Nat} {s rest : List Symbol} {items : List Raw}
    (h : items? fuel s = some (items, rest)) : (skip s).head? ≠ some (some ']') := by
  cases fuel with
  | zero =>
    rw [items?] at h
    cases h
  | succ fuel =>
    obtain ⟨item, after, hitem, -⟩ := items?_eq_some_iff.1 h
    cases fuel with
    | zero =>
      rw [value?] at hitem
      cases hitem
    | succ fuel =>
      intro hhead
      obtain ⟨more, hmore⟩ := List.head?_eq_some_iff.1 hhead
      have hvalue := valueAt_of_value? hitem
      rw [hmore] at hvalue
      cases hvalue with
      | positive hd => cases hd

theorem head?_skip_of_members? {fuel : Nat} {s rest : List Symbol}
    {members : List (List StringPart × Raw)} (h : members? fuel s = some (members, rest)) :
    (skip s).head? ≠ some (some '}') := by
  cases fuel with
  | zero =>
    rw [members?] at h
    cases h
  | succ fuel =>
    obtain ⟨start, _, _, _, _, _, hstart, -⟩ := members?_eq_some_iff.1 h
    rw [hstart]
    intro hhead
    cases hhead

end Blanks

/-- A text that is read as `raw` wherever nothing follows that would go on a number. -/
def Reads (text : Text) (raw : Raw) : Prop :=
  ∀ fuel rest, text.length ≤ fuel → endsNumber rest.head? = true →
    value? fuel (text.map some ++ rest) = some (raw, rest)

theorem reads_of_valueAt {c : Char} (hc : isBlank (some c) = false) {inner : Text} {raw : Raw}
    (h : ∀ fuel rest, inner.length ≤ fuel → endsNumber rest.head? = true →
      ValueAt fuel (some c :: (inner.map some ++ rest)) raw rest) : Reads (c :: inner) raw := by
  intro fuel rest hfuel hrest
  cases fuel with
  | zero => cases hfuel
  | succ fuel =>
    apply value?_of_valueAt
    rw [List.map_cons, List.cons_append, skip_cons hc]
    exact h fuel rest (Nat.le_of_succ_le_succ hfuel) hrest

theorem Reads.blanks_append {text : Text} {raw : Raw} (h : Reads text raw) {blanks : Text}
    (hb : IsBlanks blanks) : Reads (blanks ++ text) raw := by
  intro fuel rest hfuel hrest
  rw [List.length_append] at hfuel
  rw [List.map_append, List.append_assoc, value?_congr (skip_append hb _)]
  exact h fuel rest (by omega) hrest

section Lists

variable {text blanks : Text} {raw : Raw}

theorem Reads.items_singleton (h : Reads text raw) (hb : IsBlanks blanks) :
    TakesItems ((text ++ blanks).map some) [raw] := by
  intro fuel rest hfuel
  cases fuel with
  | zero => cases hfuel
  | succ fuel =>
    rw [List.length_map, List.length_append] at hfuel
    have hvalue := h fuel (blanks.map some ++ some ']' :: rest) (by omega)
      (endsNumber_append hb rfl rest)
    have hskip : skip (blanks.map some ++ some ']' :: rest) = some ']' :: rest := skip_append hb _
    rw [List.map_append, List.append_assoc]
    exact items?_eq_some_iff.2 ⟨raw, _, hvalue, Or.inl ⟨hskip, rfl⟩⟩

theorem Reads.items_cons (h : Reads text raw) {inner : Text} {raws : List Raw}
    (hinner : TakesItems (inner.map some) raws) :
    TakesItems ((text ++ ',' :: inner).map some) (raw :: raws) := by
  intro fuel rest hfuel
  cases fuel with
  | zero => cases hfuel
  | succ fuel =>
    rw [List.length_map, List.length_append, List.length_cons] at hfuel
    have hvalue := h fuel (some ',' :: (inner.map some ++ some ']' :: rest)) (by omega) rfl
    have hothers := hinner fuel rest (by rw [List.length_map]; omega)
    rw [List.map_append, List.append_assoc]
    exact items?_eq_some_iff.2 ⟨raw, _, hvalue, Or.inr ⟨_, raws, rfl, hothers, rfl⟩⟩

variable {front : Text} (hf : IsBlanks front)
include hf

/-- What a member starts with, after the blanks before it. -/
theorem skip_member (name text : Text) (rest : List Symbol) :
    skip ((front ++ quote name ++ ':' :: text).map some ++ rest) =
      some '"' :: ((name.flatMap escape).map some ++
        some '"' :: some ':' :: (text.map some ++ rest)) := by
  have hquote : isBlank (some '"') = false := rfl
  simp only [List.map_append, List.append_assoc, skip_append hf]
  rw [quote, List.cons_append, List.map_cons, List.cons_append, skip_cons hquote]
  simp

theorem Reads.members_singleton (h : Reads text raw) (name : Text) (hb : IsBlanks blanks) :
    TakesMembers ((front ++ quote name ++ ':' :: text ++ blanks).map some)
      [(name.map partOf, raw)] := by
  intro fuel rest hfuel
  cases fuel with
  | zero => cases hfuel
  | succ fuel =>
    simp only [List.length_map, List.length_append, List.length_cons] at hfuel
    have hvalue := h fuel (blanks.map some ++ some '}' :: rest) (by omega)
      (endsNumber_append hb rfl rest)
    have hskip : skip (blanks.map some ++ some '}' :: rest) = some '}' :: rest := skip_append hb _
    rw [List.map_append, List.append_assoc]
    exact members?_eq_some_iff.2 ⟨_, _, _, _, raw, _, skip_member hf name text _,
      string?_quote name _, rfl, hvalue, Or.inl ⟨hskip, rfl⟩⟩

theorem Reads.members_cons (h : Reads text raw) (name : Text) {inner : Text}
    {members : List (List StringPart × Raw)} (hinner : TakesMembers (inner.map some) members) :
    TakesMembers ((front ++ quote name ++ ':' :: text ++ ',' :: inner).map some)
      ((name.map partOf, raw) :: members) := by
  intro fuel rest hfuel
  cases fuel with
  | zero => cases hfuel
  | succ fuel =>
    simp only [List.length_map, List.length_append, List.length_cons] at hfuel
    have hvalue := h fuel (some ',' :: (inner.map some ++ some '}' :: rest)) (by omega) rfl
    have hothers := hinner fuel rest (by rw [List.length_map]; omega)
    rw [List.map_append, List.append_assoc]
    exact members?_eq_some_iff.2 ⟨_, _, _, _, raw, _, skip_member hf name text _,
      string?_quote name _, rfl, hvalue, Or.inr ⟨_, members, rfl, hothers, rfl⟩⟩

end Lists

end Raw

/-- A text that is read as `json`, nested at most `depth` deep. -/
def Spells (depth : Nat) (text : Text) (json : Json) : Prop :=
  ∃ raw : Raw, raw.Reads text ∧ raw.meaning? = some json ∧ raw.depth ≤ depth

theorem Spells.blanks_append {depth : Nat} {text blanks : Text} {json : Json}
    (h : Spells depth text json) (hb : IsBlanks blanks) : Spells depth (blanks ++ text) json := by
  obtain ⟨raw, hraw, hmeaning⟩ := h
  exact ⟨raw, hraw.blanks_append hb, hmeaning⟩

def SpellsMember (depth : Nat) (text : Text) (member : Text × Json) : Prop :=
  ∃ front value, IsBlanks front ∧ text = front ++ quote member.1 ++ ':' :: value ∧
    Spells depth value member.2

section Brackets

variable {depth : Nat} {blanks : Text} (hb : IsBlanks blanks)
include hb

theorem exists_takesItems {write : Json → Text} {items : List Json} (hne : items ≠ [])
    (h : ∀ item ∈ items, Spells depth (write item) item) :
    ∃ raws, Raw.TakesItems (([','].intercalate (items.map write) ++ blanks).map some) raws ∧
      Raw.itemsMeaning? raws = some items ∧ Raw.itemsDepth raws ≤ depth := by
  induction items with
  | nil => exact absurd rfl hne
  | cons item items ih =>
    obtain ⟨raw, hraw, hmeaning, hdepth⟩ := h item List.mem_cons_self
    cases items with
    | nil =>
      refine ⟨[raw], ?_, ?_, ?_⟩
      · simpa using hraw.items_singleton hb
      · simp [Raw.itemsMeaning?, hmeaning]
      · simp [Raw.itemsDepth, hdepth]
    | cons next items =>
      obtain ⟨raws, htakes, hmeanings, hdepths⟩ :=
        ih (List.cons_ne_nil _ _) fun other ho => h other (List.mem_cons_of_mem item ho)
      refine ⟨raw :: raws, ?_, ?_, ?_⟩
      · simpa using hraw.items_cons htakes
      · simp [Raw.itemsMeaning?, hmeaning, hmeanings]
      · rw [Raw.itemsDepth]
        omega

theorem exists_takesMembers {write : Text × Json → Text} {members : List (Text × Json)}
    (hne : members ≠ []) (h : ∀ member ∈ members, SpellsMember depth (write member) member) :
    ∃ raws, Raw.TakesMembers (([','].intercalate (members.map write) ++ blanks).map some) raws ∧
      Raw.membersMeaning? raws = some members ∧ Raw.membersDepth raws ≤ depth := by
  induction members with
  | nil => exact absurd rfl hne
  | cons member members ih =>
    obtain ⟨front, value, hf, hwrite, raw, hraw, hmeaning, hdepth⟩ := h member List.mem_cons_self
    obtain ⟨name, json⟩ := member
    have hname := decode?_partOf name
    cases members with
    | nil =>
      refine ⟨[(name.map partOf, raw)], ?_, ?_, ?_⟩
      · simpa [hwrite] using hraw.members_singleton hf name hb
      · simp [Raw.membersMeaning?, hname, hmeaning]
      · simp [Raw.membersDepth, hdepth]
    | cons next members =>
      obtain ⟨raws, htakes, hmeanings, hdepths⟩ :=
        ih (List.cons_ne_nil _ _) fun other ho => h other (List.mem_cons_of_mem _ ho)
      refine ⟨(name.map partOf, raw) :: raws, ?_, ?_, ?_⟩
      · simpa [hwrite] using hraw.members_cons hf name htakes
      · simp [Raw.membersMeaning?, hname, hmeaning, hmeanings]
      · rw [Raw.membersDepth]
        omega

/-- Items with commas between them and blanks at the end spell an array. -/
theorem spells_array {write : Json → Text} {items : List Json}
    (h : ∀ item ∈ items, Spells depth (write item) item) :
    Spells (depth + 1) ('[' :: ([','].intercalate (items.map write) ++ blanks ++ [']']))
      (.array items) := by
  by_cases hne : items = []
  · refine ⟨.array [], Raw.reads_of_valueAt rfl fun fuel rest _ _ => .emptyArray ?_, ?_, ?_⟩
    · rw [hne, List.map_append, List.append_assoc]
      exact Raw.skip_append hb _
    · rw [hne]
      rfl
    · rw [Raw.depth, Raw.itemsDepth]
      omega
  · obtain ⟨raws, htakes, hmeaning, hdepth⟩ := exists_takesItems hb hne h
    refine ⟨.array raws, Raw.reads_of_valueAt rfl fun fuel rest hfuel _ => ?_, ?_, ?_⟩
    · rw [List.length_append, List.length_singleton] at hfuel
      have hitems := htakes fuel rest (by rw [List.length_map]; omega)
      rw [List.map_append, List.append_assoc]
      refine .array (Raw.head?_skip_of_items? hitems) ?_
      rw [Raw.items?_skip]
      exact hitems
    · rw [Raw.meaning?, hmeaning]
      rfl
    · rw [Raw.depth]
      omega

/-- Members with commas between them and blanks at the end spell an object. -/
theorem spells_object {write : Text × Json → Text} {members : List (Text × Json)}
    (h : ∀ member ∈ members, SpellsMember depth (write member) member) :
    Spells (depth + 1) ('{' :: ([','].intercalate (members.map write) ++ blanks ++ ['}']))
      (.object members) := by
  by_cases hne : members = []
  · refine ⟨.object [], Raw.reads_of_valueAt rfl fun fuel rest _ _ => .emptyObject ?_, ?_, ?_⟩
    · rw [hne, List.map_append, List.append_assoc]
      exact Raw.skip_append hb _
    · rw [hne]
      rfl
    · rw [Raw.depth, Raw.membersDepth]
      omega
  · obtain ⟨raws, htakes, hmeaning, hdepth⟩ := exists_takesMembers hb hne h
    refine ⟨.object raws, Raw.reads_of_valueAt rfl fun fuel rest hfuel _ => ?_, ?_, ?_⟩
    · rw [List.length_append, List.length_singleton] at hfuel
      have hmembers := htakes fuel rest (by rw [List.length_map]; omega)
      rw [List.map_append, List.append_assoc]
      refine .object (Raw.head?_skip_of_members? hmembers) ?_
      rw [Raw.members?_skip]
      exact hmembers
    · rw [Raw.meaning?, hmeaning]
      rfl
    · rw [Raw.depth]
      omega

end Brackets

section Scalars

variable (depth : Nat)

theorem spells_null : Spells depth "null".toList .null :=
  ⟨.null, Raw.reads_of_valueAt rfl fun _ rest _ _ => .null (Raw.word?_append _ rest), rfl,
    Nat.zero_le depth⟩

theorem spells_bool (b : Bool) : Spells depth (writeBool b) (.bool b) := by
  refine ⟨.bool b, ?_, rfl, Nat.zero_le depth⟩
  cases b with
  | true => exact Raw.reads_of_valueAt rfl fun _ rest _ _ => .true (Raw.word?_append _ rest)
  | false => exact Raw.reads_of_valueAt rfl fun _ rest _ _ => .false (Raw.word?_append _ rest)

theorem spells_string (s : Text) : Spells depth (quote s) (.string s) := by
  refine ⟨.string (s.map partOf), ?_, ?_, Nat.zero_le depth⟩
  · have hquote : quote s = '"' :: (s.flatMap escape ++ ['"']) := rfl
    rw [hquote]
    refine Raw.reads_of_valueAt rfl fun _ rest _ _ => .string ?_
    rw [List.map_append, List.append_assoc]
    exact string?_quote s rest
  · rw [Raw.meaning?, decode?_partOf]
    rfl

theorem spells_ofNat {n : Nat} (h : n < Text.wordLimit) :
    Spells depth (Text.ofNat n) (.number (.integer n)) := by
  refine ⟨.number ⟨false, Text.ofNat n, [], none⟩, ?_, ?_, Nat.zero_le depth⟩
  · obtain ⟨d, ds, hdigits⟩ := List.exists_cons_of_ne_nil (Text.ofNat_ne_nil n)
    have hd : d.isDigit = true :=
      Text.isDigit_of_mem_ofNat (n := n) (by rw [hdigits]; exact List.mem_cons_self)
    have hblank : Raw.isBlank (some d) = false := by
      rw [Bool.eq_false_iff]
      intro hd'
      simp only [Raw.isBlank, Bool.or_eq_true, beq_iff_eq, Option.some.injEq] at hd'
      rcases hd' with ((rfl | rfl) | rfl) | rfl <;> cases hd
    rw [hdigits]
    refine Raw.reads_of_valueAt hblank fun fuel rest _ hrest => .positive hd ?_
    have hnumber := unsigned?_ofNat false n hrest
    rwa [hdigits] at hnumber
  · rw [Raw.meaning?, Numeral.value?_ofNat h]
    rfl

theorem spells_negative {n : Nat} (hpos : 0 < n) (h : n ≤ 2 ^ 63) :
    Spells depth ('-' :: Text.ofNat n) (.number (.integer (-(n : Int)))) := by
  refine ⟨.number ⟨true, Text.ofNat n, [], none⟩, ?_, ?_, Nat.zero_le depth⟩
  · exact Raw.reads_of_valueAt rfl fun fuel rest _ hrest => .negative (unsigned?_ofNat true n hrest)
  · rw [Raw.meaning?, Numeral.value?_negative hpos h]
    rfl

theorem spells_integer {n : Int} (hmin : -2 ^ 63 ≤ n) (hmax : n < 2 ^ 64) :
    Spells depth (writeNumber (.integer n)) (.number (.integer n)) := by
  cases n with
  | ofNat n =>
    have hn : n < Text.wordLimit := by
      change n < 18446744073709551616
      have : (n : Int) < 2 ^ 64 := hmax
      omega
    exact spells_ofNat depth hn
  | negSucc n =>
    have hn : n + 1 ≤ 2 ^ 63 := by
      rw [Int.negSucc_eq] at hmin
      omega
    exact spells_negative depth (Nat.succ_pos n) hn

end Scalars

/-- A value whose numbers are integers of 64 bits, nested at most `depth` deep. -/
inductive Plain : (depth : Nat) → Json → Prop where
  | null {depth : Nat} : Plain depth .null
  | bool {depth : Nat} (b : Bool) : Plain depth (.bool b)
  | string {depth : Nat} (s : Text) : Plain depth (.string s)
  | integer {depth : Nat} {n : Int} (hmin : -2 ^ 63 ≤ n) (hmax : n < 2 ^ 64) :
      Plain depth (.number (.integer n))
  | array {depth : Nat} {items : List Json} (h : ∀ item ∈ items, Plain depth item) :
      Plain (depth + 1) (.array items)
  | object {depth : Nat} {members : List (Text × Json)}
      (h : ∀ member ∈ members, Plain depth member.2) : Plain (depth + 1) (.object members)

section Writers

theorem isBlanks_nil : IsBlanks [] := by
  intro c hc
  cases hc

theorem isBlanks_newline (level : Nat) : IsBlanks (newline level) := by
  intro c hc
  rcases List.mem_cons.1 hc with rfl | hc
  · rfl
  · rw [List.eq_of_mem_replicate hc]
    rfl

theorem prettyItems_eq (level : Nat) (items : List Json) :
    prettyItems level items =
      [','].intercalate (items.map fun item => newline level ++ prettyAt level item) := by
  induction items with
  | nil => rfl
  | cons item items ih =>
    cases items with
    | nil => rw [prettyItems, List.map_cons, List.map_nil, List.intercalate_singleton]
    | cons next rest =>
      rw [prettyItems, ih]
      · simp
      · simp

def prettyMember (level : Nat) (member : Text × Json) : Text :=
  newline level ++ quote member.1 ++ ':' :: ' ' :: prettyAt level member.2

theorem prettyMembers_eq (level : Nat) (members : List (Text × Json)) :
    prettyMembers level members = [','].intercalate (members.map (prettyMember level)) := by
  induction members with
  | nil => rfl
  | cons member members ih =>
    obtain ⟨name, value⟩ := member
    cases members with
    | nil =>
      rw [prettyMembers, List.map_cons, List.map_nil, List.intercalate_singleton]
      rfl
    | cons next rest =>
      rw [prettyMembers, ih]
      · simp [prettyMember]
      · simp

variable {depth : Nat} {json : Json}

theorem spells_compact (h : Plain depth json) : Spells depth json.compact json := by
  induction h with
  | null => exact spells_null _
  | bool b => exact spells_bool _ b
  | string s => exact spells_string _ s
  | integer hmin hmax => exact spells_integer _ hmin hmax
  | @array depth items _ ih =>
    have harray := spells_array isBlanks_nil ih
    rw [List.append_nil] at harray
    rwa [compact, compactItems_eq]
  | @object depth members _ ih =>
    have hmembers : ∀ member ∈ members, SpellsMember depth (compactMember member) member :=
      fun member hm => ⟨[], _, isBlanks_nil, rfl, ih member hm⟩
    have hobject := spells_object isBlanks_nil hmembers
    rw [List.append_nil] at hobject
    rwa [compact, compactMembers_eq]

theorem spells_prettyAt (h : Plain depth json) (level : Nat) :
    Spells depth (prettyAt level json) json := by
  induction h generalizing level with
  | null => exact spells_null _
  | bool b => exact spells_bool _ b
  | string s => exact spells_string _ s
  | integer hmin hmax => exact spells_integer _ hmin hmax
  | @array depth items _ ih =>
    have hitems : ∀ item ∈ items,
        Spells depth (newline (level + 1) ++ prettyAt (level + 1) item) item :=
      fun item hi => (ih item hi (level + 1)).blanks_append (isBlanks_newline _)
    cases items with
    | nil => exact spells_array isBlanks_nil hitems
    | cons item items =>
      have harray := spells_array (isBlanks_newline level) hitems
      rw [← prettyItems_eq] at harray
      rw [prettyAt]
      · exact harray
      · simp
  | @object depth members _ ih =>
    have hspace : IsBlanks [' '] := by
      intro c hc
      rw [List.mem_singleton.1 hc]
      rfl
    have hmembers : ∀ member ∈ members,
        SpellsMember depth (prettyMember (level + 1) member) member :=
      fun member hm => ⟨newline (level + 1), _, isBlanks_newline _, rfl,
        (ih member hm (level + 1)).blanks_append hspace⟩
    cases members with
    | nil => exact spells_object isBlanks_nil hmembers
    | cons member members =>
      have hobject := spells_object (isBlanks_newline level) hmembers
      rw [← prettyMembers_eq] at hobject
      rw [prettyAt]
      · exact hobject
      · simp

/-- A text that spells a value is read as it, unless it is nested too deep. -/
theorem readWritten?_of_spells {text : Text} (hlimit : depth ≤ depthLimit)
    (h : Spells depth text json) : readWritten? text = some json := by
  obtain ⟨raw, hraw, hmeaning, hdepth⟩ := h
  have hvalue : Raw.value? (2 * (text.map some).length + 2) (text.map some) = some (raw, []) := by
    have hread := hraw (2 * (text.map some).length + 2) [] (by rw [List.length_map]; omega) rfl
    rwa [List.append_nil] at hread
  have hread : Raw.read? (text.map some) = some raw := by
    rw [Raw.read?, hvalue]
    rfl
  rw [readWritten?, hread]
  change (if raw.depth ≤ depthLimit then raw.meaning? else none) = _
  rw [if_pos (Nat.le_trans hdepth hlimit), hmeaning]

theorem IsCanonical.canonical_eq (h : json.IsCanonical) : json.canonical = json := by
  induction h with
  | null => rfl
  | bool b => rfl
  | number n => rfl
  | string s => rfl
  | @array items _ ih =>
    rw [canonical, canonicalItems_eq, List.map_congr_left ih, List.map_id']
  | @object members hsorted _ ih =>
    have hmember : ∀ member ∈ members, (member.1, canonical member.2) = member := by
      intro member hm
      rw [ih member hm]
    have hmembers : members.map (fun member => (member.1, canonical member.2)) = members := by
      rw [List.map_congr_left hmember, List.map_id']
    rw [canonical, canonicalMembers_eq, hmembers, hsorted.entries_ofList]

variable (hlimit : depth ≤ depthLimit) (h : Plain depth json) (hcanonical : json.IsCanonical)
include hlimit h hcanonical

/-- A value on one line is read back. -/
theorem read?_compact : read? json.compact = some json := by
  rw [read?, readWritten?_of_spells hlimit (spells_compact h), Option.map_some,
    hcanonical.canonical_eq]

/-- A value over several lines is read back. -/
theorem read?_pretty : read? json.pretty = some json := by
  rw [read?, pretty, readWritten?_of_spells hlimit (spells_prettyAt h 0), Option.map_some,
    hcanonical.canonical_eq]

end Writers

end PromptChain.Json
