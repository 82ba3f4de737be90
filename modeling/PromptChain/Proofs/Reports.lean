import PromptChain.Command.Error
import PromptChain.Proofs.Expansion
import PromptChain.Proofs.ReadBack

/-! Reports of errors and requests to a chat service. Both are read back as what they tell, whatever
texts they carry. -/
namespace PromptChain

namespace Text

def numeral? (t : Text) : Option Nat :=
  if t ≠ [] ∧ t.all Char.isDigit then some (digitsValue t) else none

theorem numeral?_ofNat (n : Nat) : numeral? (ofNat n) = some n := by
  have hdigits : (ofNat n).all Char.isDigit = true :=
    List.all_eq_true.2 fun _ => isDigit_of_mem_ofNat
  rw [numeral?, if_pos ⟨ofNat_ne_nil n, hdigits⟩, digitsValue_ofNat]

theorem newline_notMem_ofNat (n : Nat) : '\n' ∉ ofNat n := by
  intro h
  have hdigit := isDigit_of_mem_ofNat h
  exact absurd hdigit (by decide)

/-- Lines that a line feed ends and does not cut are read back, with nothing after the last one. -/
theorem splitOn_closeLines {lines : List Text} (h : ∀ line ∈ lines, '\n' ∉ line) :
    (closeLines lines).splitOn '\n' = lines ++ [[]] := by
  have hjoin : closeLines lines = ['\n'].intercalate (lines ++ [[]]) := by
    rw [intercalate_append_cons, List.intercalate_singleton, List.append_nil]
  have hall : ∀ line ∈ lines ++ [[]], '\n' ∉ line := by
    intro line hline
    rcases List.mem_append.1 hline with hline | hline
    · exact h line hline
    · rw [List.mem_singleton.1 hline]
      exact List.not_mem_nil
  rw [hjoin, List.splitOn_intercalate '\n' hall (by simp)]

end Text

namespace Diagnostic

/-- The lines of a report. A line for the step is there if a step is. -/
def reportLines (d : Diagnostic) : List Text :=
  ["RESULT:ERROR".toList, "ERROR_CODE:".toList ++ d.code] ++
    d.step.toList.map (fun step => "ERROR_STEP:".toList ++ Text.ofNat step) ++
    ["ERROR_MSG_JSON:".toList ++ Json.quote d.message]

/-- The step that a line tells, or none without such a line. -/
def stepOf? : Option Text → Option (Option Nat)
  | none => some none
  | some line => do
    let digits ← Text.after? "ERROR_STEP:".toList line
    let step ← digits.numeral?
    pure (some step)

def messageOf? (line : Text) : Option Text := do
  let json ← Text.after? "ERROR_MSG_JSON:".toList line
  match Json.readWritten? json with
  | some (.string message) => some message
  | _ => none

def told? (result code : Text) (step : Option Text) (message : Text) : Option Diagnostic :=
  if result = "RESULT:ERROR".toList then do
    let code ← Text.after? "ERROR_CODE:".toList code
    let step ← stepOf? step
    let message ← messageOf? message
    pure ⟨code, message, step⟩
  else none

/-- The diagnostic that a report tells: three lines or four, each ended by a line feed. -/
def ofReport? (report : Text) : Option Diagnostic :=
  match report.splitOn '\n' with
  | [result, code, message, []] => told? result code none message
  | [result, code, step, message, []] => told? result code (some step) message
  | _ => none

theorem report_eq (d : Diagnostic) : d.report = Text.closeLines d.reportLines := by
  unfold report reportLines
  cases d.step with
  | none => simp [reportLine, Text.closeLines]
  | some step => simp [reportLine, Text.closeLines]

theorem newline_notMem_reportLines {d : Diagnostic} (h : '\n' ∉ d.code) :
    ∀ line ∈ d.reportLines, '\n' ∉ line := by
  have hlabels : '\n' ∉ "RESULT:ERROR".toList ∧ '\n' ∉ "ERROR_CODE:".toList ∧
      '\n' ∉ "ERROR_STEP:".toList ∧ '\n' ∉ "ERROR_MSG_JSON:".toList := by decide
  obtain ⟨hresult, hcode, hstep, hmessage⟩ := hlabels
  have hquote := Json.newline_not_mem_quote d.message
  intro line hline
  simp only [reportLines, List.mem_append, List.mem_cons, List.mem_map, List.not_mem_nil,
    or_false] at hline
  rcases hline with (hline | hline) | hline
  · rcases hline with hline | hline
    · rw [hline]
      exact hresult
    · rw [hline, List.mem_append]
      exact fun hm => hm.elim hcode h
  · obtain ⟨step, -, hline⟩ := hline
    rw [← hline, List.mem_append]
    exact fun hm => hm.elim hstep (Text.newline_notMem_ofNat step)
  · rw [hline, List.mem_append]
    exact fun hm => hm.elim hmessage hquote

/-- A report has the lines that it should have, and no others. -/
theorem splitOn_report {d : Diagnostic} (h : '\n' ∉ d.code) :
    d.report.splitOn '\n' = d.reportLines ++ [[]] := by
  rw [report_eq, Text.splitOn_closeLines (newline_notMem_reportLines h)]

theorem messageOf?_quote (message : Text) :
    messageOf? ("ERROR_MSG_JSON:".toList ++ Json.quote message) = some message := by
  have hread : Json.readWritten? (Json.quote message) = some (.string message) :=
    Json.readWritten?_of_spells (Nat.zero_le _) (Json.spells_string 0 message)
  rw [messageOf?, Text.after?_append]
  change (match Json.readWritten? (Json.quote message) with
    | some (.string message) => some message
    | _ => none) = some message
  rw [hread]

theorem stepOf?_ofNat (step : Nat) :
    stepOf? (some ("ERROR_STEP:".toList ++ Text.ofNat step)) = some (some step) := by
  rw [stepOf?, Text.after?_append]
  change (Text.numeral? (Text.ofNat step)).bind _ = _
  rw [Text.numeral?_ofNat]
  rfl

theorem told?_eq {d : Diagnostic} {line : Option Text} (h : stepOf? line = some d.step) :
    told? "RESULT:ERROR".toList ("ERROR_CODE:".toList ++ d.code) line
      ("ERROR_MSG_JSON:".toList ++ Json.quote d.message) = some d := by
  rw [told?, if_pos rfl, Text.after?_append, h, messageOf?_quote]
  rfl

/-- A report is read back. -/
theorem ofReport?_report {d : Diagnostic} (h : '\n' ∉ d.code) : ofReport? d.report = some d := by
  rw [ofReport?, splitOn_report h, reportLines]
  cases hstep : d.step with
  | none => exact told?_eq (hstep ▸ rfl)
  | some step => exact told?_eq (hstep ▸ stepOf?_ofNat step)

end Diagnostic

section Codes

private theorem newline_notMem {t : Text} (h : t.contains '\n' = false) : '\n' ∉ t := by
  intro hm
  rw [List.contains_iff_mem.2 hm] at h
  cases h

theorem Verdict.newline_notMem_code (v : Verdict) : '\n' ∉ v.code := by
  cases v with
  | valid => exact newline_notMem rfl
  | noActions => exact newline_notMem rfl
  | noVariables => exact newline_notMem rfl
  | rejected step violation =>
    have hstem : '\n' ∉ Step.outputStem := newline_notMem rfl
    have hviolation : '\n' ∉ violation.code := by cases violation <;> exact newline_notMem rfl
    have hnumber := Text.newline_notMem_ofNat step
    change '\n' ∉ (Step.outputStem ++ '_' :: Text.ofNat step) ++ '_' :: violation.code
    simp only [List.mem_append, List.mem_cons, not_or]
    exact ⟨⟨hstem, by decide, hnumber⟩, by decide, hviolation⟩

theorem Cause.newline_notMem_code (c : Cause) : '\n' ∉ c.code := by
  cases c <;> exact newline_notMem rfl

/-- The code of every error that a command tells stands on one line. -/
theorem CommandError.newline_notMem_code (e : CommandError) : '\n' ∉ e.diagnostic.code := by
  cases e with
  | compile e =>
    cases e with
    | rejected verdict => exact verdict.newline_notMem_code
    | _ => exact newline_notMem rfl
  | config e => exact newline_notMem rfl
  | input e => cases e <;> exact newline_notMem rfl
  | run f => exact f.cause.newline_notMem_code
  | _ => exact newline_notMem rfl

end Codes

namespace Chat

theorem plain_request (model prompt : Text) : (request model prompt).Plain 3 := by
  have hmessage : Json.Plain 1
      (.object [("role".toList, .string "user".toList), ("content".toList, .string prompt)]) := by
    apply Json.Plain.object
    simp only [List.forall_mem_cons, List.not_mem_nil, false_implies, implies_true, and_true]
    exact ⟨.string _, .string _⟩
  have hmessages : Json.Plain 2 (.array
      [.object [("role".toList, .string "user".toList), ("content".toList, .string prompt)]]) := by
    apply Json.Plain.array
    simpa using hmessage
  apply Json.Plain.object
  simp only [List.forall_mem_cons, List.not_mem_nil, false_implies, implies_true, and_true]
  exact ⟨.string _, hmessages⟩

theorem readWritten?_requestBody (model prompt : Text) :
    Json.readWritten? (requestBody model prompt) = some (request model prompt) :=
  Json.readWritten?_of_spells (by decide) (Json.spells_compact (plain_request model prompt))

end Chat

/-- Texts survive quoting. A report has one line for each fact and no other lines, whatever its
message holds, and tells the diagnostic that it was made of; so does the report of every failed
command. A request is read as the model and a single message of the user, which is the prompt. -/
theorem emitted_texts_read_back :
    (∀ d : Diagnostic, '\n' ∉ d.code →
      d.report.splitOn '\n' = d.reportLines ++ [[]] ∧
      Diagnostic.ofReport? d.report = some d) ∧
    (∀ e : CommandError, Diagnostic.ofReport? e.diagnostic.report = some e.diagnostic) ∧
    ∀ model prompt : Text,
      Json.readWritten? (Chat.requestBody model prompt) =
        some (.object
          [("model".toList, .string model),
           ("messages".toList,
            .array [.object [("role".toList, .string "user".toList),
                             ("content".toList, .string prompt)]])]) := by
  refine ⟨?_, ?_, Chat.readWritten?_requestBody⟩
  · intro d h
    exact ⟨Diagnostic.splitOn_report h, Diagnostic.ofReport?_report h⟩
  · intro e
    exact Diagnostic.ofReport?_report e.newline_notMem_code

/-- A message with a line feed, quotes, a backslash and a control character. -/
def Diagnostic.awkward : Diagnostic where
  code := "E".toList
  message := "a\n\"b\"\\\x01".toList
  step := some 12

theorem emitted_texts_read_back_awkward :
    '\n' ∉ Diagnostic.awkward.code ∧
      Diagnostic.awkward.report.splitOn '\n' =
        ["RESULT:ERROR".toList, "ERROR_CODE:E".toList, "ERROR_STEP:12".toList,
          "ERROR_MSG_JSON:\"a\\n\\\"b\\\"\\\\\\u0001\"".toList, []] ∧
      Diagnostic.ofReport? Diagnostic.awkward.report = some Diagnostic.awkward := by
  have hcode : '\n' ∉ Diagnostic.awkward.code := newline_notMem rfl
  have hlines : Diagnostic.awkward.reportLines =
      ["RESULT:ERROR".toList, "ERROR_CODE:E".toList, "ERROR_STEP:12".toList,
        "ERROR_MSG_JSON:\"a\\n\\\"b\\\"\\\\\\u0001\"".toList] := by
    decide
  obtain ⟨hsplit, hread⟩ := emitted_texts_read_back.1 Diagnostic.awkward hcode
  rw [hlines] at hsplit
  exact ⟨hcode, hsplit, hread⟩

end PromptChain
