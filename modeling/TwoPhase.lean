import TwoPhase.ByteSource
import TwoPhase.Json.Edit
import TwoPhase.Main
import TwoPhase.Proofs.Acts
import TwoPhase.Proofs.Agenda
import TwoPhase.Proofs.Fits
import TwoPhase.Proofs.Course
import TwoPhase.Proofs.Handling
import TwoPhase.Proofs.Jobs
import TwoPhase.Proofs.Turns
import TwoPhase.Proofs.Runs
import TwoPhase.Proofs.Durability
import TwoPhase.Proofs.Stages
import TwoPhase.Proofs.Roots
import TwoPhase.Proofs.Decision
import TwoPhase.Proofs.Tally
import TwoPhase.Proofs.Unanimity
import TwoPhase.Proofs.Outgoing
import TwoPhase.Proofs.Promises
import TwoPhase.Proofs.Conversations
import TwoPhase.Proofs.Ledgers
import TwoPhase.Proofs.Entries
import TwoPhase.Proofs.Answers
import TwoPhase.Proofs.Numbering
import TwoPhase.Proofs.Completions
import TwoPhase.Proofs.Queueing
import TwoPhase.Proofs.Encoding
import TwoPhase.Proofs.Frames
import TwoPhase.Proofs.Recovery
import TwoPhase.Proofs.Pending
import TwoPhase.Proofs.Workload
import TwoPhase.Proofs.Requested
import TwoPhase.Proofs.Placement
import TwoPhase.Proofs.Stranded
import TwoPhase.Proofs.Demands
import TwoPhase.Proofs.Records
import TwoPhase.Proofs.Votes
import TwoPhase.Proofs.Participation
import TwoPhase.Proofs.Refusals
import TwoPhase.Proofs.Listing
import TwoPhase.Proofs.InDoubt
import TwoPhase.Proofs.Outcomes
import TwoPhase.Proofs.Verdicts
import TwoPhase.Proofs.Agreement
import TwoPhase.Proofs.Delivery
import TwoPhase.Proofs.Serving
import TwoPhase.Proofs.Exits
import TwoPhase.Proofs.Availability
import TwoPhase.Proofs.Tables
import TwoPhase.Proofs.Seating
import TwoPhase.Proofs.Sparing
import TwoPhase.Proofs.Isolation
import TwoPhase.Proofs.Speaking
import TwoPhase.Proofs.Printing
import TwoPhase.Proofs.WireValues
import TwoPhase.Proofs.WireMessages
import TwoPhase.Proofs.Inquiries
import TwoPhase.Proofs.Arrivals
import TwoPhase.Proofs.FirstPhase
import TwoPhase.Proofs.Owners
import TwoPhase.Proofs.Twins
import TwoPhase.Proofs.Lockstep
import TwoPhase.Proofs.Limits
import TwoPhase.Proofs.OnePhase
import TwoPhase.Proofs.Repairs
import TwoPhase.Proofs.Departures
import TwoPhase.Proofs.Rejections
import TwoPhase.Proofs.Measuring
import TwoPhase.Proofs.Releases
import TwoPhase.Proofs.Involvement
import TwoPhase.Proofs.Unrolling
