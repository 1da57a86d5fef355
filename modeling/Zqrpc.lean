import Zqrpc.Numeral
import Zqrpc.Path
import Zqrpc.ZError
import Zqrpc.Convert
import Zqrpc.ZSocket
import Zqrpc.RpcChannel
import Zqrpc.RpcChannelRules
import Zqrpc.ChannelRuns
import Zqrpc.ChannelRelease
import Zqrpc.ChannelReplies
import Zqrpc.RpcWorker
import Zqrpc.WorkerRuns
import Zqrpc.ErrorReplies
import Zqrpc.Network
import Zqrpc.NetworkRuns
import Zqrpc.ChannelIdentities
import Zqrpc.EndToEnd
import Zqrpc.Pool
import Zqrpc.PoolRuns
import Zqrpc.StopOrders
import Zqrpc.ChannelErrors
import Zqrpc.MalformedReplies
import Zqrpc.ReplyList
import Zqrpc.Framing
import Zqrpc.OrderIndependence
import Zqrpc.Registry
import Zqrpc.RegistryRuns
import Zqrpc.ServiceGenerator
import Zqrpc.Dispatch
import Zqrpc.Forwarding
import Zqrpc.RpcServer
import Zqrpc.CloseRuns
import Zqrpc.RoundRobin
import Zqrpc.BrokenClose
import Zqrpc.Deadline
import Zqrpc.FinalStatus
import Zqrpc.CloseCompletes
import Zqrpc.ServerStart
import Zqrpc.ReplySends
import Zqrpc.WorkerOperator
import Zqrpc.NoReply
import Zqrpc.CppLiteral
import Zqrpc.FileGenerator
import Zqrpc.RequestNumbers
import Zqrpc.GeneratedScopes
import Zqrpc.ZqrpcCppGenerator
import Zqrpc.ScopedCode
import Zqrpc.LossyFraming
import Zqrpc.ChannelWire
import Zqrpc.PoolTraffic
import Zqrpc.PoolAnswers
import Zqrpc.Deployment
import Zqrpc.DeploymentRuns
import Zqrpc.DeploymentReplies
import Zqrpc.DeploymentCalls
import Zqrpc.DeploymentProgress
import Zqrpc.Owner
import Zqrpc.SocketHandles
import Zqrpc.SocketRuns
import Zqrpc.FilesLink
