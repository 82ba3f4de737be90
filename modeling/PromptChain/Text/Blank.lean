import PromptChain.Text.Basic

/-! Blank characters, and texts without blanks at their ends. -/
namespace PromptChain.Text

/-- The characters with the property `White_Space`. -/
def isBlank (c : Char) : Bool :=
  let n := c.toNat
  (9 ≤ n && n ≤ 13) || n == 0x20 || n == 0x85 || n == 0xA0 || n == 0x1680 ||
    (0x2000 ≤ n && n ≤ 0x200A) || n == 0x2028 || n == 0x2029 || n == 0x202F || n == 0x205F ||
    n == 0x3000

def trimStart (t : Text) : Text :=
  t.dropWhile isBlank

def trimEnd : Text → Text
  | [] => []
  | c :: t =>
    match trimEnd t with
    | [] => if isBlank c then [] else [c]
    | rest => c :: rest

def trim (t : Text) : Text :=
  trimEnd (trimStart t)

def allBlank (t : Text) : Bool :=
  t.all isBlank

theorem trimEnd_eq_nil_iff {t : Text} : trimEnd t = [] ↔ t.allBlank = true := by
  induction t with
  | nil => simp [trimEnd, allBlank]
  | cons c t ih =>
    simp only [allBlank, List.all_cons, Bool.and_eq_true] at ih ⊢
    cases h : trimEnd t with
    | nil => by_cases hc : isBlank c = true <;> simp_all [trimEnd]
    | cons d r => simp_all [trimEnd]

end PromptChain.Text
