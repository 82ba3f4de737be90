import PromptChain.Exchange
import PromptChain.Machine
import PromptChain.Main
import PromptChain.Proofs.ActionGrammar
import PromptChain.Proofs.Assignments
import PromptChain.Proofs.Blame
import PromptChain.Proofs.Calendar
import PromptChain.Proofs.CanonicalJson
import PromptChain.Proofs.CollectedInputs
import PromptChain.Proofs.Collision
import PromptChain.Proofs.CommitLog
import PromptChain.Proofs.Compilation
import PromptChain.Proofs.ConsoleLines
import PromptChain.Proofs.Cursors
import PromptChain.Proofs.DeclaredNames
import PromptChain.Proofs.EncodedTexts
import PromptChain.Proofs.ExactIntegers
import PromptChain.Proofs.ExpandedSteps
import PromptChain.Proofs.Expansion
import PromptChain.Proofs.Extension
import PromptChain.Proofs.Extraction
import PromptChain.Proofs.FileNames
import PromptChain.Proofs.Filling
import PromptChain.Proofs.InitialValues
import PromptChain.Proofs.InkedLines
import PromptChain.Proofs.JoinedSteps
import PromptChain.Proofs.JsonReading
import PromptChain.Proofs.KeptJson
import PromptChain.Proofs.KeptOutputs
import PromptChain.Proofs.Legality
import PromptChain.Proofs.LineEndings
import PromptChain.Proofs.Lists
import PromptChain.Proofs.LongestTokens
import PromptChain.Proofs.LoopIsolation
import PromptChain.Proofs.LoopItems
import PromptChain.Proofs.LoopSources
import PromptChain.Proofs.Markers
import PromptChain.Proofs.NodeTrees
import PromptChain.Proofs.Occurrences
import PromptChain.Proofs.OutputNames
import PromptChain.Proofs.PlacedFilling
import PromptChain.Proofs.ReadBack
import PromptChain.Proofs.Rejection
import PromptChain.Proofs.Reports
import PromptChain.Proofs.RunCommand
import PromptChain.Proofs.RunFailure
import PromptChain.Proofs.RunLog
import PromptChain.Proofs.SavedEnvironment
import PromptChain.Proofs.Scope
import PromptChain.Proofs.Seams
import PromptChain.Proofs.Splitting
import PromptChain.Proofs.Substitution
import PromptChain.Proofs.Tables
import PromptChain.Proofs.TidiedLines
import PromptChain.Proofs.TidiedPlaceholders
import PromptChain.Proofs.Tidying
import PromptChain.Proofs.Transparency
import PromptChain.Proofs.WrittenFiles
import PromptChain.Proofs.WrittenTokens
