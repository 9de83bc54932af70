import FiberGateway.Http1.Framing
import FiberGateway.Http1.Conservation
import FiberGateway.Http1.ResponseHeader
import FiberGateway.Http2.StreamTable
import FiberGateway.Http2.Segmentation
import FiberGateway.Http2.EntryLife
import FiberGateway.Http2.Outbound
import FiberGateway.Http2.GracefulDrain
import FiberGateway.Http2.HeaderBlocks
import FiberGateway.Http2.FlowControl
import FiberGateway.Event.DueTimers
import FiberGateway.Async.WaitGroupRuns
import FiberGateway.Http2.SendPolls
import FiberGateway.Event.SignalRuns
import FiberGateway.Json.Operators
import FiberGateway.Mem.BufPool
import FiberGateway.Json.ObjectIteration
import FiberGateway.Json.IntegerOps
import FiberGateway.Script.StdLibraryStrings
import FiberGateway.Script.UrlQuery
