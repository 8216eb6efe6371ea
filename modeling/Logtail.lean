import Logtail.Framing
import Logtail.Transitions
import Logtail.Decimal
import Logtail.FileStream
import Logtail.ScribeSend
import Logtail.Checkpoint
import Logtail.ModelRead
import Logtail.Frames
import Logtail.Delivery
import Logtail.BatchLedger
import Logtail.Tailing
import Logtail.LineFraming
import Logtail.Position
import Logtail.CrashSafety
import Logtail.BackupRead
import Logtail.Progress
import Logtail.LosslessRotation
import Logtail.Encoding
import Logtail.Detection
import Logtail.Startup
import Logtail.RotationRace
import Logtail.BatchBound
import Logtail.Sections
import Logtail.Trimming
import Logtail.Conf
import Logtail.ConfGrammar
import Logtail.ConfRoundTrip
import Logtail.Recovery
import Logtail.ModelConfig
import Logtail.Launch
import Logtail.CheckpointStates
import Logtail.PeriodicGate
import Logtail.Staleness
import Logtail.PipeReading
import Logtail.Backoff
import Logtail.Reconnect
import Logtail.Separators
import Logtail.Attribution
import Logtail.Wire
import Logtail.Thrift
import Logtail.TBinaryProtocol
import Logtail.Scribe
import Logtail.RemoteCall
import Logtail.Retransmission
import Logtail.LossyLink
import Logtail.StoredLines
import Logtail.StoredGenerations
import Logtail.Coverage
import Logtail.Lifetimes
import Logtail.History
import Logtail.Generations
import Logtail.ConfBytes
import Logtail.SingleLine
import Logtail.Simulation
import Logtail.Inevitability
import Logtail.Draining
import Logtail.Alarms
import Logtail.Forms
import Logtail.Process
import Logtail.Served
import Logtail.Program
