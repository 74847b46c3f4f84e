import Vivarium.Engine.WorkerPool
import Vivarium.Simulation.Directory
import Vivarium.Simulation.Script
import Vivarium.Value.Ron
import Vivarium.Value.Text
import Vivarium.Proofs.Machine
import Vivarium.Proofs.EngineTasks
import Vivarium.Proofs.Ledger
import Vivarium.Proofs.Control
import Vivarium.Proofs.Boundaries
import Vivarium.Proofs.Execution
import Vivarium.Proofs.Sessions
import Vivarium.Proofs.Places
import Vivarium.Proofs.Stopping
import Vivarium.Proofs.Cancelling
import Vivarium.Proofs.Turns
import Vivarium.Proofs.Remaining
import Vivarium.Proofs.WholeTick
import Vivarium.Proofs.Agenda
import Vivarium.Proofs.NextTick
import Vivarium.Proofs.Pace
import Vivarium.Proofs.Stride
import Vivarium.Proofs.Crew
import Vivarium.Proofs.Separation
import Vivarium.Proofs.Histories
import Vivarium.Proofs.Following
import Vivarium.Proofs.Killing
import Vivarium.Proofs.Dying
import Vivarium.Proofs.Tree
import Vivarium.Proofs.Recording
import Vivarium.Proofs.Namesakes
import Vivarium.Proofs.Ownership
import Vivarium.Proofs.Release
import Vivarium.Proofs.Inheritance
import Vivarium.Proofs.Ancestry
import Vivarium.Proofs.Coherence
import Vivarium.Proofs.Marking
import Vivarium.Proofs.Evolution
import Vivarium.Proofs.Listeners
import Vivarium.Proofs.Announcing
import Vivarium.Proofs.Arrivals
import Vivarium.Proofs.Causality
import Vivarium.Proofs.Chains
import Vivarium.Proofs.WriteBack
import Vivarium.Proofs.Validated
import Vivarium.Proofs.Marks
import Vivarium.Proofs.Signatures
import Vivarium.Proofs.Ambiguity
import Vivarium.Proofs.Writes
import Vivarium.Proofs.Accessors
import Vivarium.Proofs.Carrying
import Vivarium.Proofs.Parties
import Vivarium.Proofs.Waiting
import Vivarium.Proofs.Keyed
import Vivarium.Proofs.Mirrors
import Vivarium.Proofs.Newcomers
import Vivarium.Proofs.Chronicle
import Vivarium.Proofs.Lockstep
import Vivarium.Proofs.Synchrony
import Vivarium.Proofs.Idling
import Vivarium.Proofs.Driving
import Vivarium.Proofs.Bureau
import Vivarium.Proofs.Problems
import Vivarium.Proofs.Exploration
import Vivarium.Proofs.Dispatch
import Vivarium.Proofs.Optionals
import Vivarium.Proofs.Searching
import Vivarium.Proofs.Metering
import Vivarium.Proofs.Saving
import Vivarium.Proofs.Cadence
import Vivarium.Proofs.IdealClock
import Vivarium.Proofs.Parking
import Vivarium.Proofs.Equality
import Vivarium.Proofs.Timekeeping
import Vivarium.Proofs.Service
