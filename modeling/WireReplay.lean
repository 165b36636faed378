import WireReplay.Main
import WireReplay.Proofs.Phases
import WireReplay.Proofs.ReplaySteps
import WireReplay.Proofs.OneCaptureEach
import WireReplay.Proofs.Cascade
import WireReplay.Proofs.Time
import WireReplay.Proofs.Arrivals
import WireReplay.Proofs.Calm
import WireReplay.Proofs.Cut
import WireReplay.Proofs.Cancellation
import WireReplay.Proofs.Shift
import WireReplay.Proofs.Isolation
import WireReplay.Proofs.Heedless
import WireReplay.Proofs.Deliveries
import WireReplay.Proofs.RelayedTurn
import WireReplay.Proofs.RelayAgreement
import WireReplay.Proofs.Visits
import WireReplay.Proofs.Ledger
import WireReplay.Proofs.Receipts
import WireReplay.Proofs.Shipments
import WireReplay.Proofs.Remainder
import WireReplay.Proofs.Deadlines
import WireReplay.Proofs.RunningTime
import WireReplay.Proofs.OwnConnections
import WireReplay.Proofs.LongerTimeouts
import WireReplay.Proofs.Joined
import WireReplay.Proofs.Fragmentation
import WireReplay.Proofs.EarlierPayloads
import WireReplay.Proofs.OnePayload
import WireReplay.Proofs.Granted
import WireReplay.Proofs.Chunks
import WireReplay.Proofs.Dialogue
import WireReplay.Proofs.EchoPeer
import WireReplay.Proofs.RelayMoments
import WireReplay.Proofs.Streaming
import WireReplay.Proofs.IdleTimeouts
import WireReplay.Proofs.Entries
import WireReplay.Proofs.Places
import WireReplay.Proofs.Rearranged
import WireReplay.Proofs.Loading
import WireReplay.Proofs.Paths
import WireReplay.Proofs.Texts
import WireReplay.Proofs.ResponseNames
import WireReplay.Proofs.Filing
import WireReplay.Proofs.Inactivity
import WireReplay.Proofs.Sessions
import WireReplay.Proofs.Accepted
import WireReplay.Proofs.UsableTimeouts
import WireReplay.Proofs.Growth
import WireReplay.Proofs.ReportFiles
import WireReplay.Proofs.Decoding
import WireReplay.Proofs.ResponsePaths
import WireReplay.Proofs.Digits
import WireReplay.Proofs.JsonReader
import WireReplay.Proofs.Summaries
import WireReplay.Proofs.TomlText
import WireReplay.Proofs.LayeredSettings
import WireReplay.Proofs.Overwriting
import WireReplay.Proofs.FailedReports
import WireReplay.Proofs.Endpoints
import WireReplay.Proofs.LaterRelays
import WireReplay.Proofs.WholeInput
import WireReplay.Proofs.CommandLines
