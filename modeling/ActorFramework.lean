import ActorFramework.Async.BlockingProducer
import ActorFramework.Async.PromiseCells
import ActorFramework.Async.SpscSignals
import ActorFramework.Core.ActorRequests
import ActorFramework.Core.Base64
import ActorFramework.Core.ConfigOptionSet
import ActorFramework.Core.Datetime
import ActorFramework.Core.DelayedActions
import ActorFramework.Core.ForwardingActorProxy
import ActorFramework.Core.Fsm
import ActorFramework.Core.IpAddressText
import ActorFramework.Core.Json
import ActorFramework.Core.LinkRun
import ActorFramework.Core.MailboxRun
import ActorFramework.Core.NumberRange
import ActorFramework.Core.ReadString
import ActorFramework.Core.ResponsePromise
import ActorFramework.Core.StreamDelivery
import ActorFramework.Core.Uri
import ActorFramework.Cuda.Manager
import ActorFramework.Cuda.MemoryActor
import ActorFramework.Cuda.StreamPool
import ActorFramework.Flow.BackpressureRun
import ActorFramework.Flow.BufferRun
import ActorFramework.Flow.Cancellation
import ActorFramework.Flow.ConcatRun
import ActorFramework.Flow.FromResourceRun
import ActorFramework.Flow.FromStepsRun
import ActorFramework.Flow.MergeRun
import ActorFramework.Flow.PublishRun
import ActorFramework.Flow.UcastReplay
import ActorFramework.Flow.ZipWithRun
import ActorFramework.Io.Basp.BrokerFaults
import ActorFramework.Io.Basp.MessageQueueRun
import ActorFramework.Io.Basp.NodeObservers
import ActorFramework.Io.Network.Stream
import ActorFramework.Net.Http.Multipart
import ActorFramework.Net.Http.RequestDelivery
import ActorFramework.Net.Http.ResponseDelivery
import ActorFramework.Net.Http.Router
import ActorFramework.Net.Http.Switching
import ActorFramework.Net.Lp.FramingRun
import ActorFramework.Net.WebSocket.Closing
import ActorFramework.Net.WebSocket.Suspension
import ActorFramework.Net.WebSocket.TextMessages
