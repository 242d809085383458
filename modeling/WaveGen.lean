import WaveGen.Bench
import WaveGen.Client.Scripted
import WaveGen.Client.Station
import WaveGen.Main
import WaveGen.Proofs.Framing
import WaveGen.Proofs.LineBuffers
import WaveGen.Proofs.NormalForm
import WaveGen.Proofs.Serving
import WaveGen.Proofs.ChannelWrites
import WaveGen.Proofs.CommandEffects
import WaveGen.Proofs.EnumSettings
import WaveGen.Proofs.Queries
import WaveGen.Proofs.Header
import WaveGen.Proofs.Replies
import WaveGen.Proofs.DecimalText
import WaveGen.Proofs.StoredValues
import WaveGen.Proofs.Reports
import WaveGen.Proofs.Rounding
import WaveGen.Proofs.DecimalRounding
import WaveGen.Proofs.DecimalReading
import WaveGen.Proofs.QuantityOrder
import WaveGen.Proofs.LoadChanges
import WaveGen.Proofs.ComparisonRuns
import WaveGen.Proofs.SharedHandles
import WaveGen.Proofs.ChannelClients
import WaveGen.Proofs.ReplyLines
import WaveGen.Proofs.Exchanges
import WaveGen.Proofs.Transport
import WaveGen.Proofs.Models
import WaveGen.Proofs.Parity
import WaveGen.Proofs.Resets
import WaveGen.Proofs.HeaderModes
import WaveGen.Proofs.SessionOutput
import WaveGen.Proofs.Spellings
import WaveGen.Proofs.VerbCodec
import WaveGen.Proofs.OutputStreams
import WaveGen.Proofs.Rejections
import WaveGen.Proofs.RelativeErrors
import WaveGen.Proofs.SignificantDigits
import WaveGen.Proofs.GeneralFormat
import WaveGen.Proofs.StableNumbers
import WaveGen.Proofs.Halves
import WaveGen.Proofs.LoadRoundTrips
import WaveGen.Proofs.Amplitudes
import WaveGen.Proofs.Quotients
import WaveGen.Proofs.Copies
import WaveGen.Proofs.Twins
import WaveGen.Proofs.Repetitions
import WaveGen.Proofs.ReplyStreams
import WaveGen.Proofs.Validation
import WaveGen.Proofs.ListeningAddress
import WaveGen.Proofs.Layers
import WaveGen.Proofs.ConsoleSessions
import WaveGen.Proofs.StoreHistories
