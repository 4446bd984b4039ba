import DotPaths.Main
import DotPaths.Proofs.Alike
import DotPaths.Proofs.Brackets
import DotPaths.Proofs.Cells
import DotPaths.Proofs.Chains
import DotPaths.Proofs.Changes
import DotPaths.Proofs.Choice
import DotPaths.Proofs.Clock
import DotPaths.Proofs.CloneLoop
import DotPaths.Proofs.CloneWays
import DotPaths.Proofs.Cloning
import DotPaths.Proofs.Comments
import DotPaths.Proofs.Contention
import DotPaths.Proofs.Crossings
import DotPaths.Proofs.Destinations
import DotPaths.Proofs.Dialogue
import DotPaths.Proofs.Drawing
import DotPaths.Proofs.Encounter
import DotPaths.Proofs.Execution
import DotPaths.Proofs.Expansion
import DotPaths.Proofs.History
import DotPaths.Proofs.Hygiene
import DotPaths.Proofs.ImportLoop
import DotPaths.Proofs.Imports
import DotPaths.Proofs.Instances
import DotPaths.Proofs.Integers
import DotPaths.Proofs.Invariant
import DotPaths.Proofs.Kinds
import DotPaths.Proofs.Laps
import DotPaths.Proofs.Launch
import DotPaths.Proofs.Ledger
import DotPaths.Proofs.Links
import DotPaths.Proofs.Lists
import DotPaths.Proofs.Literals
import DotPaths.Proofs.Lockstep
import DotPaths.Proofs.Log
import DotPaths.Proofs.Moments
import DotPaths.Proofs.Negation
import DotPaths.Proofs.Notes
import DotPaths.Proofs.Numerals
import DotPaths.Proofs.Observer
import DotPaths.Proofs.Oldest
import DotPaths.Proofs.Order
import DotPaths.Proofs.OutputLimit
import DotPaths.Proofs.Pad
import DotPaths.Proofs.Pairing
import DotPaths.Proofs.Passage
import DotPaths.Proofs.Placement
import DotPaths.Proofs.Progress
import DotPaths.Proofs.Queue
import DotPaths.Proofs.Quotations
import DotPaths.Proofs.Range
import DotPaths.Proofs.Readback
import DotPaths.Proofs.RegionPlans
import DotPaths.Proofs.Regions
import DotPaths.Proofs.Relations
import DotPaths.Proofs.Replicas
import DotPaths.Proofs.Requests
import DotPaths.Proofs.Retracing
import DotPaths.Proofs.Round
import DotPaths.Proofs.RoundEnd
import DotPaths.Proofs.RowPrinting
import DotPaths.Proofs.Scene
import DotPaths.Proofs.Schedules
import DotPaths.Proofs.Seams
import DotPaths.Proofs.Sites
import DotPaths.Proofs.Solo
import DotPaths.Proofs.Specimens
import DotPaths.Proofs.Stopping
import DotPaths.Proofs.Switches
import DotPaths.Proofs.SymbolicRegions
import DotPaths.Proofs.SymbolicRuns
import DotPaths.Proofs.SymbolicTurns
import DotPaths.Proofs.TickLimit
import DotPaths.Proofs.Turn
import DotPaths.Proofs.Views
import DotPaths.Proofs.Whereabouts
import DotPaths.Proofs.Window
