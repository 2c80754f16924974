import SwarrmVerify.L2Merkle.Proofs
import SwarrmVerify.L3KeyLog.Issuers
import SwarrmVerify.L4Bundle.Disclosure
import SwarrmVerify.L5Guarantees.History
import SwarrmVerify.L5Guarantees.Authority
import SwarrmVerify.L5Guarantees.Noninterference
import SwarrmVerify.L5Guarantees.Truncation
import SwarrmVerify.L5Guarantees.Order
import SwarrmVerify.L1Encoding.CborCodec
import SwarrmVerify.L4Action.Facts
import SwarrmVerify.L5Guarantees.Anchors
import SwarrmVerify.L5Guarantees.MoreTrust
import SwarrmVerify.L5Guarantees.Certified
import SwarrmVerify.L5Guarantees.Matching
import SwarrmVerify.L5Guarantees.InForce
import SwarrmVerify.L5Guarantees.Layout
import SwarrmVerify.L5Guarantees.Linkage
import SwarrmVerify.Core.Panics
import SwarrmVerify.L4Handshake.Documents
import SwarrmVerify.L4Handshake.Schemas
import SwarrmVerify.L4Handshake.Envelopes
import SwarrmVerify.L4Handshake.State
import SwarrmVerify.L5Guarantees.AuthorityMap
import SwarrmVerify.L4Handshake.Admin
import SwarrmVerify.L4Handshake.Evaluation
import SwarrmVerify.L4Handshake.Reads
import SwarrmVerify.Core.Decimal
import SwarrmVerify.L4Handshake.Phases
import SwarrmVerify.L5Guarantees.HonestVector
import SwarrmVerify.L5Guarantees.Counterparty
import SwarrmVerify.L5Guarantees.Generation
import SwarrmVerify.Core.SortedMap
import SwarrmVerify.L4Dispute.Texts
import SwarrmVerify.L4Dispute.Dispute
import SwarrmVerify.L5Guarantees.Reconciliation
import SwarrmVerify.L5Guarantees.Floor
import SwarrmVerify.L5Guarantees.Echo
import SwarrmVerify.Core.Calendar
import SwarrmVerify.L1Encoding.Stamps
import SwarrmVerify.L5Guarantees.Times
import SwarrmVerify.Core.Partition
import SwarrmVerify.L4Bundle.Reported
import SwarrmVerify.L5Guarantees.Covers
import SwarrmVerify.Core.Succession
import SwarrmVerify.L5Guarantees.Roots
import SwarrmVerify.L5Guarantees.Recorder
import SwarrmVerify.L5Guarantees.Tiling
import SwarrmVerify.Core.SuffixMin
import SwarrmVerify.L5Guarantees.Clamp
import SwarrmVerify.L5Guarantees.Rewrites
import SwarrmVerify.L4Certificate.Scitt
import SwarrmVerify.L1Encoding.Unique
import SwarrmVerify.L5Guarantees.Messages
import SwarrmVerify.L5Guarantees.Amounts
import SwarrmVerify.L3KeyLog.InPlace
import SwarrmVerify.L5Guarantees.Scopes
import SwarrmVerify.L1Encoding.Frames
import SwarrmVerify.L1Encoding.ScanRun
import SwarrmVerify.L1Encoding.NormalForm
import SwarrmVerify.L4Bundle.Paths
import SwarrmVerify.Core.JsonText
import SwarrmVerify.Core.JsonReader
import SwarrmVerify.L1Encoding.Serde
import SwarrmVerify.L4Action.Strict
import SwarrmVerify.L4Handshake.ClientData
import SwarrmVerify.L1Encoding.Written
import SwarrmVerify.L3KeyLog.Identity
import SwarrmVerify.L5Guarantees.Registered
import SwarrmVerify.L5Guarantees.Mandates
import SwarrmVerify.L4Dispute.FloatText
import SwarrmVerify.L5Guarantees.SplitView
import SwarrmVerify.L4Handshake.Acknowledgement
import SwarrmVerify.L5Guarantees.Acknowledged
import SwarrmVerify.L4Bundle.Checkpoints
import SwarrmVerify.L4Bundle.Tokens
import SwarrmVerify.L5Guarantees.Stamped
import SwarrmVerify.L5Guarantees.Exported
import SwarrmVerify.L4Handshake.Consumption
import SwarrmVerify.L5Guarantees.Consumed
import SwarrmVerify.L3KeyLog.Cut
import SwarrmVerify.L5Guarantees.Rewound
