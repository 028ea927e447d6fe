import DsparkEdge.EngineRuns
import DsparkEdge.Service
import DsparkEdge.Remote
import DsparkEdge.LastCapture
import DsparkEdge.Acked
import DsparkEdge.Accounting
import DsparkEdge.Delivery
import DsparkEdge.Daemon
import DsparkEdge.Generations
import DsparkEdge.CaptureSpec
import DsparkEdge.Transport
import DsparkEdge.Joint
import DsparkEdge.Verdict
import DsparkEdge.Golden
import DsparkEdge.Replay
import DsparkEdge.Recording
import DsparkEdge.Positions
import DsparkEdge.Rollback
import DsparkEdge.Retry
import DsparkEdge.Anchor
import DsparkEdge.Lib.Mailbox
import DsparkEdge.WatchQueue
import DsparkEdge.Sessions
import DsparkEdge.Lookups
import DsparkEdge.Ui.ProcessManager
import DsparkEdge.Ui.Children
import DsparkEdge.Lib.Window
import DsparkEdge.Ui.ConfigStore
import DsparkEdge.Ui.Dashboard
import DsparkEdge.Ui.Dirty
import DsparkEdge.Ui.LogStream
import DsparkEdge.Ui.StatusSync
import DsparkEdge.Chunking
import DsparkEdge.Lib.Wire
import DsparkEdge.MessageSize
import DsparkEdge.DraftBound
import DsparkEdge.Handshake
import DsparkEdge.DraftBlock
import DsparkEdge.Lib.Utf8
import DsparkEdge.Ui.LogChunks
import DsparkEdge.Ui.Stopping
import DsparkEdge.Lib.Scan
import DsparkEdge.Ui.ExtraArgs
import DsparkEdge.Lib.Atoi
import DsparkEdge.Ui.LaunchArgs
import DsparkEdge.Converter
import DsparkEdge.Loadable
import DsparkEdge.Checkpoint
import DsparkEdge.ReplayOrder
import DsparkEdge.Ui.LogsRoute
import DsparkEdge.ServerPatchRerun
import DsparkEdge.Lib.Locks
import DsparkEdge.ServiceLocks
import DsparkEdge.ServiceHeld
import DsparkEdge.ServiceRefines
import DsparkEdge.Recovery
import DsparkEdge.Lib.Loops
import DsparkEdge.Codec
import DsparkEdge.ReplayFiles
import DsparkEdge.Metrics
import DsparkEdge.ReplayRecorded
import DsparkEdge.ServerPatchSettles
import DsparkEdge.SharedRpc
import DsparkEdge.SharedDaemon
import DsparkEdge.Alike
import DsparkEdge.Transparent
import DsparkEdge.Selftest
import DsparkEdge.Ui.ProcessRoute
import DsparkEdge.Ui.Launches
import DsparkEdge.Ui.Answers
import DsparkEdge.Ui.Console
import DsparkEdge.Ui.Shown
import DsparkEdge.Ui.Streams
