import RedBlack.Allocation
import RedBlack.Blueprint.Reader
import RedBlack.Inspect
import RedBlack.Shape
import RedBlack.Proofs.Fork
import RedBlack.Proofs.Path
import RedBlack.Proofs.Linked
import RedBlack.Proofs.Rotation
import RedBlack.Proofs.Search
import RedBlack.Proofs.Balance
import RedBlack.Proofs.Sorted
import RedBlack.Proofs.Insertion.Rounds
import RedBlack.Proofs.Insertion.Colors
import RedBlack.Proofs.Insertion.Passes
import RedBlack.Proofs.Insertion.Simulation
import RedBlack.Proofs.Insertion.Outcome
import RedBlack.Proofs.Erasure.Rounds
import RedBlack.Proofs.Erasure.Colors
import RedBlack.Proofs.Erasure.Simulation
import RedBlack.Proofs.Erasure.Outcome
import RedBlack.Proofs.Erasure.Removal
import RedBlack.Proofs.Runs
import RedBlack.Proofs.Erasure.Safety
import RedBlack.Proofs.Cursor.Moves
import RedBlack.Proofs.Cursor.Index
import RedBlack.Proofs.Slab
import RedBlack.Proofs.Cursor.Walks
import RedBlack.Proofs.Cursor.Agreement
import RedBlack.Proofs.Map.State
import RedBlack.Proofs.Map.Changes
import RedBlack.Proofs.Map.Readings
import RedBlack.Proofs.Map.Refinement
import RedBlack.Proofs.Map.Slots
import RedBlack.Proofs.Map.Refusals
import RedBlack.Proofs.Map.Lockstep
import RedBlack.Proofs.Validation
import RedBlack.Proofs.Height
import RedBlack.Proofs.Erasure.Successor
import RedBlack.Proofs.Acceptance
import RedBlack.Proofs.Insertion.Attachment
import RedBlack.Proofs.Cursor.Capacity
import RedBlack.Proofs.BlackHeight
import RedBlack.Proofs.Insertion.Mirror
import RedBlack.Proofs.Diagnosis
import RedBlack.Proofs.Cursor.Traversals
import RedBlack.Proofs.Lookup
import RedBlack.Proofs.Accounts
import RedBlack.Proofs.Layout
import RedBlack.Proofs.Pool
import RedBlack.Proofs.Leaks
import RedBlack.Proofs.Insertion.Windows
import RedBlack.Proofs.Insertion.Visits
import RedBlack.Proofs.Erasure.Splice
