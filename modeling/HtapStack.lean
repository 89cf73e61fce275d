import HtapStack.Compare.Buckets
import HtapStack.Compare.Completeness
import HtapStack.Compare.Isolation
import HtapStack.Compare.NewestWindow
import HtapStack.Compare.Panel
import HtapStack.Compare.PostNdjson
import HtapStack.Compare.Stream
import HtapStack.Compare.Window
import HtapStack.Engines.AlertHistory
import HtapStack.Engines.CqliteFigures
import HtapStack.Engines.IngestionHistory
import HtapStack.Engines.IngestionRate
import HtapStack.Engines.PlatformHealth
import HtapStack.Engines.PreparedStatements
import HtapStack.Engines.SnapshotLife
import HtapStack.Engines.Trail
import HtapStack.Lib.Cursor
import HtapStack.Lib.Gather
import HtapStack.Lib.Utf8
import HtapStack.Producer.DemoControls
import HtapStack.Producer.Fleet
import HtapStack.Producer.FleetRuns
import HtapStack.Producer.Messages
import HtapStack.Producer.Noise
import HtapStack.Producer.Repeats
import HtapStack.Producer.RoundRobin
import HtapStack.Producer.Stamps
import HtapStack.Producer.TextSampler
import HtapStack.Query.Limits
import HtapStack.Query.Patterns
import HtapStack.Query.ReadOnly
import HtapStack.Query.TableReferences
import HtapStack.Search.Embedding
import HtapStack.Search.Fairness
import HtapStack.Sink.Alerts
import HtapStack.Sink.Counts
import HtapStack.Sink.Replay
import HtapStack.Sink.TrackerRuns
import HtapStack.Streaming.Follow
import HtapStack.Streaming.JsonSafe
import HtapStack.Streaming.TailLoop
import HtapStack.Transactions.Contention
import HtapStack.Transactions.Explained
import HtapStack.Transactions.Semaphore
import HtapStack.Transactions.SessionLog
import HtapStack.Transactions.SqlConsole
import HtapStack.Zones.EvenOdd
import HtapStack.Zones.MapRing
import HtapStack.Zones.Ranking
