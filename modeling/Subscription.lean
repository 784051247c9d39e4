import Subscription.Alteration.Arrangement
import Subscription.Alteration.Judgment
import Subscription.Alteration.Occasion
import Subscription.Alteration.Outcome
import Subscription.Alteration.Proposal
import Subscription.Alteration.Replacement
import Subscription.Alteration.Request
import Subscription.Alteration.Transition
import Subscription.Choice
import Subscription.Circumstance
import Subscription.Distinct
import Subscription.Document.Basic
import Subscription.Document.ConfigError
import Subscription.Document.Declaration
import Subscription.Document.Loading
import Subscription.Document.Validity
import Subscription.Facet
import Subscription.Family.Basic
import Subscription.Family.OfDeclaration
import Subscription.LoadError
import Subscription.Named
import Subscription.Plan.Basic
import Subscription.Plan.Loading
import Subscription.Plan.Replay
import Subscription.Proofs.Activation
import Subscription.Proofs.BecomingInfinite
import Subscription.Proofs.Catalogs
import Subscription.Proofs.Changes
import Subscription.Proofs.ClosedForm
import Subscription.Proofs.Condensing
import Subscription.Proofs.Conditions
import Subscription.Proofs.Deadlines
import Subscription.Proofs.Decision
import Subscription.Proofs.DeclaredFamilies
import Subscription.Proofs.Decoding
import Subscription.Proofs.ExpectedRange
import Subscription.Proofs.ExtendPolicyFold
import Subscription.Proofs.Extension
import Subscription.Proofs.FacetOrder
import Subscription.Proofs.FieldReading
import Subscription.Proofs.ForeignSettings
import Subscription.Proofs.ForeignTiers
import Subscription.Proofs.FreeTier
import Subscription.Proofs.Fulfilment
import Subscription.Proofs.IllFormedPolicies
import Subscription.Proofs.InForce
import Subscription.Proofs.InitialSettings
import Subscription.Proofs.Intent
import Subscription.Proofs.Judging
import Subscription.Proofs.LeastTier
import Subscription.Proofs.LimitSafety
import Subscription.Proofs.Loading
import Subscription.Proofs.LongerHistories
import Subscription.Proofs.Merging
import Subscription.Proofs.Newest
import Subscription.Proofs.Occupancy
import Subscription.Proofs.OneWay
import Subscription.Proofs.Order
import Subscription.Proofs.PlainProlongation
import Subscription.Proofs.Preview
import Subscription.Proofs.Recording
import Subscription.Proofs.Registering
import Subscription.Proofs.Reloading
import Subscription.Proofs.RepeatedIds
import Subscription.Proofs.ReplayOrder
import Subscription.Proofs.Resolving
import Subscription.Proofs.Restriction
import Subscription.Proofs.Run
import Subscription.Proofs.SameLimit
import Subscription.Proofs.SameState
import Subscription.Proofs.Settled
import Subscription.Proofs.SoundDocuments
import Subscription.Proofs.Spans
import Subscription.Proofs.StoredForms
import Subscription.Proofs.Storing
import Subscription.Proofs.TrialDeadline
import Subscription.Proofs.TrialInForce
import Subscription.Proofs.UnpaidGain
import Subscription.Registry
import Subscription.Replay.Fold
import Subscription.Replay.Record
import Subscription.Seconds
import Subscription.Setting.Basic
import Subscription.Setting.Reading
import Subscription.Setting.Settings
import Subscription.Snapshot
import Subscription.Status
import Subscription.Stored
import Subscription.Table
import Subscription.Tier.Catalog
import Subscription.Tier.Span
import Subscription.Toml.Scan
import Subscription.Toml.Statement
import Subscription.Toml.Tree
import Subscription.Value
