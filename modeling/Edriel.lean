import Edriel.Lib.Interleaving
import Edriel.FreshStream
import Edriel.Ring
import Edriel.QosRouting
import Edriel.Reconcile
import Edriel.Drain
import Edriel.Delivery
import Edriel.HalfClose
import Edriel.Generations
import Edriel.Rejected
import Edriel.DeadDial
import Edriel.Gate
import Edriel.BestEffort
import Edriel.ExactlyOnce
import Edriel.Isolation
import Edriel.Teardown
import Edriel.Straggler
import Edriel.TopicWindow
import Edriel.Reordering
import Edriel.EdrielConfig
import Edriel.WaterMarks
import Edriel.Wakeups
import Edriel.Eviction
import Edriel.Cancellation
import Edriel.FastRoute
import Edriel.HostileFrame
import Edriel.Pacing
import Edriel.MulticastAddress
import Edriel.SeedKeys
import Edriel.KernelLoss
import Edriel.RateLimit
import Edriel.TopicFrame
import Edriel.Withdrawal
import Edriel.FailedRegistration
import Edriel.Heartbeat
import Edriel.Presence
import Edriel.Swarm
import Edriel.Redial
import Edriel.LoadedConfig
import Edriel.Deliverability
import Edriel.WindingUp
import Edriel.Dialing
import Edriel.PipelineStop
