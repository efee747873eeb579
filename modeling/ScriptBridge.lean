import ScriptBridge.Binary64
import ScriptBridge.Binary64.Decimal
import ScriptBridge.Cell
import ScriptBridge.CoreInstances
import ScriptBridge.Failure
import ScriptBridge.Handle
import ScriptBridge.Host.Eval
import ScriptBridge.Host.Probe
import ScriptBridge.Host.Program
import ScriptBridge.Host.Run
import ScriptBridge.Host.World
import ScriptBridge.Ledger
import ScriptBridge.Path
import ScriptBridge.Script.Access
import ScriptBridge.Script.Arithmetic
import ScriptBridge.Script.Code
import ScriptBridge.Script.Collector
import ScriptBridge.Script.Compile
import ScriptBridge.Script.Control
import ScriptBridge.Script.Embedding
import ScriptBridge.Script.Library
import ScriptBridge.Script.Machine
import ScriptBridge.Script.Numeral
import ScriptBridge.Script.Parser
import ScriptBridge.Script.Pattern
import ScriptBridge.Script.Prelude
import ScriptBridge.Script.Report
import ScriptBridge.Script.Startup
import ScriptBridge.Script.Step
import ScriptBridge.Script.Syntax
import ScriptBridge.Script.Table
import ScriptBridge.Script.Token
import ScriptBridge.Script.Value
import ScriptBridge.Session
import ScriptBridge.Session.Calls
import ScriptBridge.Session.Globals
import ScriptBridge.SessionMap
import ScriptBridge.SharedRegistry
import ScriptBridge.Settings
import ScriptBridge.Text.Hidden
import ScriptBridge.Text.Quoted
import ScriptBridge.Utf8
import ScriptBridge.Value
import ScriptBridge.Proofs.Entries
import ScriptBridge.Proofs.Holding
import ScriptBridge.Proofs.Slots
import ScriptBridge.Proofs.Leads
import ScriptBridge.Proofs.Sound
import ScriptBridge.Proofs.Cells
import ScriptBridge.Proofs.Pins
import ScriptBridge.Proofs.Keeps
import ScriptBridge.Proofs.Directories
import ScriptBridge.Proofs.Transfers
import ScriptBridge.Proofs.Arrivals
import ScriptBridge.Proofs.Operations
import ScriptBridge.Proofs.Operands
import ScriptBridge.Proofs.Inventory
import ScriptBridge.Proofs.Balance
import ScriptBridge.Proofs.Release
import ScriptBridge.Proofs.Places
import ScriptBridge.Proofs.Evaluation
import ScriptBridge.Proofs.Steps
import ScriptBridge.Proofs.Activities
import ScriptBridge.Proofs.Deliveries
import ScriptBridge.Proofs.Crossings
import ScriptBridge.Proofs.Running
import ScriptBridge.Proofs.Allocation
import ScriptBridge.Proofs.References
import ScriptBridge.Proofs.Passage
import ScriptBridge.Proofs.Rounding
import ScriptBridge.Proofs.RoundTrip
import ScriptBridge.Proofs.ErrorText
import ScriptBridge.Proofs.PinOwners
import ScriptBridge.Proofs.Restoring
import ScriptBridge.Proofs.Sparing
import ScriptBridge.Proofs.Refusals
import ScriptBridge.Proofs.Instructions
import ScriptBridge.Proofs.Stacks
import ScriptBridge.Proofs.LibraryCalls
import ScriptBridge.Proofs.Collection
import ScriptBridge.Proofs.Stepping
import ScriptBridge.Proofs.Objects
import ScriptBridge.Proofs.Moves
import ScriptBridge.Proofs.Still
import ScriptBridge.Proofs.Ages
import ScriptBridge.Proofs.Calm
import ScriptBridge.Proofs.Routes
import ScriptBridge.Proofs.HostFrames
import ScriptBridge.Proofs.Heights
import ScriptBridge.Proofs.Standing
import ScriptBridge.Proofs.Nesting
import ScriptBridge.Proofs.Shifts
import ScriptBridge.Proofs.Beginnings
import ScriptBridge.Proofs.Delivering
import ScriptBridge.Proofs.Attending
import ScriptBridge.Proofs.Turns
import ScriptBridge.Proofs.Handovers
import ScriptBridge.Proofs.Threads
import ScriptBridge.Proofs.Listing
import ScriptBridge.Proofs.Outcomes
import ScriptBridge.Proofs.Underway
import ScriptBridge.Proofs.Reentry
import ScriptBridge.Proofs.Calling
import ScriptBridge.Proofs.Levels
import ScriptBridge.Proofs.Freeing
import ScriptBridge.Proofs.Inbound
import ScriptBridge.Proofs.Outbound
import ScriptBridge.Proofs.Extraction
import ScriptBridge.Proofs.Grammar
import ScriptBridge.Proofs.Serving
import ScriptBridge.Proofs.Dispatching
import ScriptBridge.Proofs.Lifetimes
import ScriptBridge.Proofs.Unwinding
import ScriptBridge.Proofs.Upkeep
import ScriptBridge.Proofs.Chains
import ScriptBridge.Proofs.Closing
import ScriptBridge.Proofs.Moving
import ScriptBridge.Proofs.Lineage
import ScriptBridge.Proofs.Identity
import ScriptBridge.Proofs.Sides
import ScriptBridge.Proofs.Tracks
import ScriptBridge.Proofs.Custody
import ScriptBridge.Proofs.Shares
import ScriptBridge.Proofs.Twins
import ScriptBridge.Proofs.Sharing
import ScriptBridge.Proofs.Makings
import ScriptBridge.Proofs.Dealings
import ScriptBridge.Proofs.Proceedings
import ScriptBridge.Proofs.Undertakings
import ScriptBridge.Proofs.Ventures
import ScriptBridge.Proofs.Responses
import ScriptBridge.Proofs.Parting
import ScriptBridge.Proofs.Isolation
