import Kimserver.Nodes.Workers
import Kimserver.Nodes.Lookups
import Kimserver.Registry.Sync
import Kimserver.Registry.Bio
import Kimserver.Registry.CreateParent
import Kimserver.Registry.Reconcile
import Kimserver.Net.HandshakeRun
import Kimserver.Net.Channels
import Kimserver.Net.Lifetime
import Kimserver.Net.HandOver
import Kimserver.Net.TellWorker
import Kimserver.Net.Requests
import Kimserver.Net.HttpErrors
import Kimserver.Net.HttpPersistence
import Kimserver.Codec.FrameBounds
import Kimserver.Codec.RoundTrip
import Kimserver.Codec.Params
import Kimserver.Codec.HttpRoundTrip
import Kimserver.Codec.HttpRollback
import Kimserver.Codec.HttpParserKept
import Kimserver.Db.Wakeup
import Kimserver.Db.Answers
import Kimserver.Db.Cursors
import Kimserver.Db.QueryRuns
import Kimserver.Redis.Pools
import Kimserver.Redis.Closing
import Kimserver.Util.ByteQueue
import Kimserver.Util.Printf
import Kimserver.Cmd.Timeouts
import Kimserver.Cmd.ModuleMgr
import Kimserver.Process.Slots
import Kimserver.Process.Transfer
import Kimserver.Process.Traffic
import Kimserver.Process.Fairness
