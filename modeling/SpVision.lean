import SpVision.Library.Reader
import SpVision.Uproto.CleanStream
import SpVision.Uproto.AnyStream
import SpVision.Uproto.Corruption
import SpVision.Uproto.Transactions
import SpVision.Driver.Poll
import SpVision.Uproto.Completion
import SpVision.Uproto.Timing
import SpVision.Uproto.TxnIds
import SpVision.Uproto.Handshake
import SpVision.Library.Aging
import SpVision.Comm.Channel
import SpVision.Comm.Arbiter
import SpVision.Library.ReflectedCrc
import SpVision.Uproto.Burst
import SpVision.Comm.MuxCodec
import SpVision.Uproto.EncoderImage
import SpVision.Comm.Delivery
import SpVision.Comm.Sequence
import SpVision.Comm.Turns
import SpVision.Driver.Interlock
import SpVision.Uproto.Unserved
import SpVision.Driver.Clock
import SpVision.Driver.Commands
import SpVision.Driver.Malformed
import SpVision.Gimbal.Layout
import SpVision.Library.Increasing
import SpVision.Link.Attitude
import SpVision.Link.Brackets
import SpVision.Tracker.Confirmed
import SpVision.Tracker.Patience
import SpVision.Uproto.RxBounds
import SpVision.Sync.Exchange
import SpVision.Uproto.FailedStart
import SpVision.Link.Send
import SpVision.Tracker.Plates
import SpVision.Tracker.Overloads
import SpVision.Tools.OrderedQueue
import SpVision.Detector.Duplicates
import SpVision.Omni.Decider
import SpVision.Omni.Steering
import SpVision.Nav.Subscribe
import SpVision.Tools.Crc
import SpVision.Detector.Suppression
import SpVision.Tools.RansacSineFitter
import SpVision.Planner.Trajectory
import SpVision.Tracker.Aimer
import SpVision.Link.Endpoint
import SpVision.Uproto.Line
import SpVision.Uproto.Serving
import SpVision.Comm.Manager
import SpVision.Comm.Stack
import SpVision.Tools.ThreadPool
import SpVision.Tools.ThreadSafeQueue
import SpVision.Planner.Lead
import SpVision.Tracker.Aim
import SpVision.Tracker.Covariance
import SpVision.Tracker.Jacobian
import SpVision.Tracker.CommandGener
import SpVision.Tracker.Solver
import SpVision.Programs.MpcStops
import SpVision.Planner.Control
