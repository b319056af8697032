import NodeScript.Command
import NodeScript.Display
import NodeScript.Layout
import NodeScript.Library
import NodeScript.Main
import NodeScript.Store
import NodeScript.Workspace
import NodeScript.Proofs.Nesting
import NodeScript.Proofs.Spans
import NodeScript.Proofs.Validation
import NodeScript.Proofs.Effects
import NodeScript.Proofs.Faults
import NodeScript.Proofs.Steps
import NodeScript.Proofs.LoopOrder
import NodeScript.Proofs.Enclosing
import NodeScript.Proofs.Script
import NodeScript.Proofs.Mirror
import NodeScript.Proofs.Following
import NodeScript.Proofs.Refinement
import NodeScript.Proofs.Returning
import NodeScript.Proofs.Containment
import NodeScript.Proofs.CallTargets
import NodeScript.Proofs.Relocation.Values
import NodeScript.Proofs.Relocation.Trees
import NodeScript.Proofs.Relocation.Evaluation
import NodeScript.Proofs.Relocation.Decoding
import NodeScript.Proofs.Relocation.Leaves
import NodeScript.Proofs.Relocation.Headers
import NodeScript.Proofs.Relocation.Runs
import NodeScript.Proofs.Reuse
import NodeScript.Proofs.Reporting
import NodeScript.Proofs.CallStack
import NodeScript.Proofs.Cycles
import NodeScript.Proofs.Recursion
import NodeScript.Proofs.Configurations
import NodeScript.Proofs.Limits.Numbers
import NodeScript.Proofs.Limits.Texts
import NodeScript.Proofs.Limits.Trees
import NodeScript.Proofs.Closed.Heaps
import NodeScript.Proofs.Limits.Evaluation
import NodeScript.Proofs.Limits.Leaves
import NodeScript.Proofs.Closed.Contexts
import NodeScript.Proofs.Limits.Instructions
import NodeScript.Proofs.Closed.Steps
import NodeScript.Proofs.Nodes
import NodeScript.Proofs.Closed.Runs
import NodeScript.Proofs.Appending
import NodeScript.Proofs.Truncation
import NodeScript.Proofs.Notices
import NodeScript.Proofs.Isolation
import NodeScript.Proofs.Realms.Evaluation
import NodeScript.Proofs.LeafFrame
import NodeScript.Proofs.Realms.Runs
import NodeScript.Proofs.Reach
import NodeScript.Proofs.Places
import NodeScript.Proofs.RawLookup
import NodeScript.Proofs.Passes
import NodeScript.Proofs.Counting
import NodeScript.Proofs.Iterating
import NodeScript.Proofs.FirstReturn
import NodeScript.Proofs.Breaking
import NodeScript.Proofs.Dangling
import NodeScript.Proofs.Outlines
import NodeScript.Proofs.Rejoining
import NodeScript.Proofs.Doubles
import NodeScript.Proofs.Sameness
import NodeScript.Proofs.Refusals
import NodeScript.Proofs.TableEntries
import NodeScript.Proofs.Equality
import NodeScript.Proofs.RoundTrip.Texts
import NodeScript.Proofs.RoundTrip.Trees
import NodeScript.Proofs.RoundTrip.Literals
import NodeScript.Proofs.NumberReading
import NodeScript.Proofs.Showing
import NodeScript.Proofs.Formatting
import NodeScript.Proofs.Drawing
import NodeScript.Proofs.ExitCodes
import NodeScript.Proofs.Consecutive
import NodeScript.Proofs.Naming
import NodeScript.Proofs.Loading
import NodeScript.Proofs.CallKeys
