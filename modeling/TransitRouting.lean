import TransitRouting.Main
import TransitRouting.Proofs.Frontier
import TransitRouting.Proofs.Ranking.Survivors
import TransitRouting.Proofs.Ranking.Selection
import TransitRouting.Proofs.Iteration.EarliestArrival
import TransitRouting.Proofs.Journey.Results
import TransitRouting.Proofs.Journey.Itinerary
import TransitRouting.Proofs.Journey.Trails
import TransitRouting.Proofs.Journey.Legs
import TransitRouting.Proofs.Journey.Timeline
import TransitRouting.Proofs.Journey.Steps
import TransitRouting.Proofs.Journey.Segments
import TransitRouting.Proofs.Journey.WellFormed
import TransitRouting.Proofs.Journey.Connections
import TransitRouting.Proofs.Journey.Prohibitions
import TransitRouting.Proofs.Iteration.Onward
import TransitRouting.Proofs.Iteration.Chains
import TransitRouting.Proofs.Iteration.Barred
import TransitRouting.Proofs.Iteration.Hidden
import TransitRouting.Proofs.Journey.Charges
import TransitRouting.Proofs.Journey.Merits
import TransitRouting.Proofs.Iteration.Limits
import TransitRouting.Proofs.Journey.Ends
import TransitRouting.Proofs.Search.Candidates
import TransitRouting.Proofs.Search.TransferLimits
import TransitRouting.Proofs.Search.Windows
import TransitRouting.Proofs.Iteration.Derivations
import TransitRouting.Proofs.Schedule.Drafts
import TransitRouting.Proofs.Schedule.Reliability
import TransitRouting.Proofs.Schedule.Transcription
import TransitRouting.Proofs.Schedule.Ordering
import TransitRouting.Proofs.Schedule.Acceptance
import TransitRouting.Proofs.Lookups.Schedule
import TransitRouting.Proofs.Lookups.Store
import TransitRouting.Proofs.Lookups.Iteration
import TransitRouting.Proofs.Lookups.Assembly
import TransitRouting.Proofs.Lookups.Search
import TransitRouting.Proofs.LabelStore.Sequences
import TransitRouting.Proofs.Schedule.Duality
import TransitRouting.Proofs.Journey.Rules
import TransitRouting.Proofs.Iteration.Stages
import TransitRouting.Proofs.Search.TransferCounts
import TransitRouting.Proofs.LabelStore.Losses
import TransitRouting.Proofs.Search.Tiling
import TransitRouting.Proofs.Boarding.Outcomes
import TransitRouting.Proofs.Boarding.Overrides
import TransitRouting.Proofs.LabelStore.Operations
import TransitRouting.Proofs.LabelStore.Flags
import TransitRouting.Proofs.Iteration.Pruning
import TransitRouting.Proofs.Journey.CheapestChange
import TransitRouting.Proofs.Journey.Slides
import TransitRouting.Proofs.Search.Samples
import TransitRouting.Proofs.Search.ArrivalTables
import TransitRouting.Proofs.Boarding.Opposites
import TransitRouting.Proofs.LabelStore.Reuse
import TransitRouting.Proofs.Time.ClockText
import TransitRouting.Proofs.Iteration.Riders
import TransitRouting.Proofs.LabelStore.References
import TransitRouting.Proofs.Costs
