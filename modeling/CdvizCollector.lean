import CdvizCollector.Lib.System
import CdvizCollector.Lib.Text
import CdvizCollector.Lib.Result
import CdvizCollector.Lib.Delimited
import CdvizCollector.Lib.FirstBy
import CdvizCollector.Lib.FileTree
import CdvizCollector.Lib.ByteIndex
import CdvizCollector.Lib.Fifo
import CdvizCollector.Lib.Assoc
import CdvizCollector.Lib.Json
import CdvizCollector.Lib.Http
import CdvizCollector.Lib.Traced
import CdvizCollector.Security.Rule
import CdvizCollector.Sinks.BatchSpool
import CdvizCollector.Sinks.BatchTail
import CdvizCollector.Sinks.BatchFlush
import CdvizCollector.Sinks.BatchTrigger
import CdvizCollector.Sinks.ClickhouseQuery
import CdvizCollector.Sinks.DbOutage
import CdvizCollector.Sinks.QueryGrammar
import CdvizCollector.Sinks.Folder
import CdvizCollector.Transformers.Deduplicate
import CdvizCollector.Sources.SendCdevents
import CdvizCollector.Sources.Webhook
import CdvizCollector.Sources.Backpressure
import CdvizCollector.Sources.HttpPolling.Confluence
import CdvizCollector.Sources.WindowTiling
import CdvizCollector.Sources.WindowClock
import CdvizCollector.Sources.Opendal.Stat
import CdvizCollector.Sources.Sse.Resume
import CdvizCollector.Sources.Sse.RetryBudget
import CdvizCollector.Sources.Parsers.TapPoints
import CdvizCollector.Sources.Parsers.TapBlocks
import CdvizCollector.Sources.Parsers.TapDirective
import CdvizCollector.Sources.Parsers.TapLoops
import CdvizCollector.Sources.ParserAgreement
import CdvizCollector.Security.Redirect
import CdvizCollector.Security.SignatureCheck
import CdvizCollector.Security.SignatureBinding
import CdvizCollector.Security.HeaderOrder
import CdvizCollector.Sinks.HttpHeaders
import CdvizCollector.Sources.HttpPolling.RetryAfter
import CdvizCollector.Sources.HttpPolling.RetryBound
import CdvizCollector.Sources.QueueDepth
import CdvizCollector.Sources.HttpPolling.Outcome
import CdvizCollector.Sources.HttpPolling.Hold
import CdvizCollector.Sources.HttpPolling.RateLimit
import CdvizCollector.Sources.HttpPolling.Pacing
import CdvizCollector.Transformers.OciPurl
import CdvizCollector.Transformers.GitPurl
import CdvizCollector.Transformers.HelmPurl
import CdvizCollector.Tools.Send
import CdvizCollector.Tools.SendOverrides
import CdvizCollector.Tools.SendPaths
import CdvizCollector.Tools.SendSafety
import CdvizCollector.Tools.Difference
import CdvizCollector.Tools.Transform
import CdvizCollector.Tools.TransformVerdict
import CdvizCollector.Config.RemoteContent
import CdvizCollector.Config.Resolution
import CdvizCollector.Sources.ContentId
import CdvizCollector.Sources.Subprocess
import CdvizCollector.Pipeline.Run
import CdvizCollector.Pipeline.Shutdown
import CdvizCollector.Pipeline.Relay
import CdvizCollector.Config.Chains
import CdvizCollector.Pipeline.KafkaRelay
import CdvizCollector.Sinks.HttpSend
import CdvizCollector.Sinks.Signed
import CdvizCollector.Pipeline.HttpRelay
import CdvizCollector.Sinks.Otel
import CdvizCollector.Pipeline.SendRun
