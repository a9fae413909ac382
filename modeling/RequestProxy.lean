import RequestProxy.Librequest.QueueRefinement
import RequestProxy.Librequest.QueueWakeup
import RequestProxy.Librequest.QueueLinear
import RequestProxy.Librequest.QueueOrder
import RequestProxy.Librequest.QueueProgress
import RequestProxy.Librequest.PoolLifetime
import RequestProxy.Librequest.PoolLedger
import RequestProxy.Librequest.PoolTermination
import RequestProxy.Librequest.PoolNested
import RequestProxy.Librequest.PoolNotices
import RequestProxy.Librequest.PoolRefinement
import RequestProxy.Librequest.PoolLiveness
import RequestProxy.Proxy.Main
import RequestProxy.Proxy.Shutdown
import RequestProxy.Proxy.FirstLine
import RequestProxy.Proxy.Segmentation
import RequestProxy.Proxy.Isolation
import RequestProxy.Proxy.Bounds
import RequestProxy.Proxy.Uninitialized
import RequestProxy.Proxy.Descriptors
import RequestProxy.Proxy.Chaining
import RequestProxy.Proxy.Decision
import RequestProxy.Proxy.Streams
import RequestProxy.Proxy.Progress
import RequestProxy.Proxy.Delivery
import RequestProxy.FutureValue.Input
import RequestProxy.FutureValue.Program
import RequestProxy.Tasks.Log
