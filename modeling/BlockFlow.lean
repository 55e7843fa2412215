import BlockFlow.CommandLine
import BlockFlow.Main
import BlockFlow.Proofs.Cleanup
import BlockFlow.Proofs.Resuming
import BlockFlow.TestCase.Check
import BlockFlow.Proofs.Delivery
import BlockFlow.Proofs.Detours
import BlockFlow.Proofs.Lexical
import BlockFlow.Proofs.Counting
import BlockFlow.Proofs.Survival
import BlockFlow.Proofs.Isolation
import BlockFlow.Proofs.BlockMap
import BlockFlow.Proofs.Acceptance
import BlockFlow.Proofs.Returns
import BlockFlow.Proofs.Privacy
import BlockFlow.Proofs.Boundaries
import BlockFlow.Proofs.Internal
import BlockFlow.Proofs.Joining
import BlockFlow.Proofs.Budgets
import BlockFlow.Proofs.Innermost
import BlockFlow.Proofs.Histories
import BlockFlow.Proofs.Handover
import BlockFlow.Proofs.Completions
import BlockFlow.Proofs.Items
import BlockFlow.Proofs.Counted
import BlockFlow.Proofs.Branches
import BlockFlow.Proofs.Messages
import BlockFlow.Proofs.Splitting
import BlockFlow.Proofs.WriteBack
import BlockFlow.Proofs.Assignments
import BlockFlow.Proofs.Selection
import BlockFlow.Proofs.Cursors
import BlockFlow.Proofs.Subtrees
import BlockFlow.Proofs.Expansion
import BlockFlow.Proofs.Numerals
import BlockFlow.Proofs.Sources
import BlockFlow.Proofs.Matching
