import SRPC.AlarmClock
import SRPC.BackgroundReplies
import SRPC.BufferCustody
import SRPC.BurstReplies
import SRPC.DecodingBounds
import SRPC.DoTransmit
import SRPC.DpdkMarshalAppend
import SRPC.DpdkReplyCodec
import SRPC.EncodingBounds
import SRPC.FutureResolution
import SRPC.HandshakeAgreement
import SRPC.InsertionRuns
import SRPC.LockGroupRuns
import SRPC.MarshalCodecRoundTrip
import SRPC.MarshalRefinement
import SRPC.MarshalSlices
import SRPC.MergedEnumerator
import SRPC.MprDagSerialisation
import SRPC.MqDelivery
import SRPC.PollReferences
import SRPC.PolledArray
import SRPC.PortCounters
import SRPC.RecorderRuns
import SRPC.RefusedRequests
import SRPC.RemoteLogRuns
import SRPC.RunLater
import SRPC.ServerLifecycle
import SRPC.ServiceRegistration
import SRPC.SparseIntAgreement
import SRPC.TcpClientStream
import SRPC.TcpOutputEvents
import SRPC.TcpReplyBoundaries
import SRPC.TcpUncountedBytes
import SRPC.ThreadPoolRuns
import SRPC.TimedReplies
import SRPC.TimeoutRuns
import SRPC.UdpCallSeparation
import SRPC.UdpFutureRuns
import SRPC.WaitDieDeadlockFreedom
import SRPC.WoundDiePriority
