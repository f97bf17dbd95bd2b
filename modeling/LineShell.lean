import LineShell.Completion.Completer
import LineShell.Highlight
import LineShell.Main
import LineShell.Proofs.Segments
import LineShell.Proofs.Blanks
import LineShell.Proofs.Trimming
import LineShell.Proofs.Layout
import LineShell.Proofs.Rendering
import LineShell.Proofs.OperatorReading
import LineShell.Proofs.Resplitting
import LineShell.Proofs.Changes
import LineShell.Proofs.Planning
import LineShell.Proofs.Calls
import LineShell.Proofs.StageCalls
import LineShell.Proofs.Subshell
import LineShell.Proofs.Wiring
import LineShell.Proofs.Containment
import LineShell.Proofs.FileLines
import LineShell.Proofs.Operations
import LineShell.Proofs.Course
import LineShell.Proofs.InputLines
import LineShell.Proofs.FileContent
import LineShell.Proofs.Saving
import LineShell.Proofs.Appending
import LineShell.Proofs.Exiting
import LineShell.Proofs.Feeding
import LineShell.Proofs.Unopened
import LineShell.Proofs.Unstarted
import LineShell.Proofs.Reasons
import LineShell.Proofs.SortedNames
import LineShell.Proofs.CommonStart
import LineShell.Proofs.Suggestions
import LineShell.Proofs.Requests
import LineShell.Proofs.Rereading
import LineShell.Proofs.Classification
import LineShell.Proofs.Cutting
import LineShell.Proofs.Lookup
import LineShell.Proofs.PathNames
import LineShell.Proofs.Extending
import LineShell.Proofs.CommandPlace
import LineShell.Proofs.Insertion
import LineShell.Proofs.Stepwise
import LineShell.Proofs.Canonical
import LineShell.Proofs.Directories
import LineShell.Proofs.Parents
import LineShell.Proofs.Listing
import LineShell.Proofs.CommandColour
import LineShell.Proofs.Accumulation
import LineShell.Proofs.ArgumentReading
