import SoftPlc.Bench.Buses
import SoftPlc.Bench.Exchanges
import SoftPlc.Bench.Lanes
import SoftPlc.Bench.Scenario
import SoftPlc.Bench.Streams
import SoftPlc.Compile.Transcript
import SoftPlc.LogRecord
import SoftPlc.Proofs.Bus.Ring
import SoftPlc.Proofs.Compile.Consumers
import SoftPlc.Proofs.Compile.Ending
import SoftPlc.Proofs.Compile.Forwarding
import SoftPlc.Proofs.Compile.Tail
import SoftPlc.Proofs.Compile.Waking
import SoftPlc.Proofs.Control.Buffering
import SoftPlc.Proofs.Control.Segments
import SoftPlc.Proofs.Control.Wire
import SoftPlc.Proofs.Lane.Numbering
import SoftPlc.Proofs.Lane.Recovery
import SoftPlc.Proofs.Lane.Workers
import SoftPlc.Proofs.Listener.Feedback
import SoftPlc.Proofs.Listener.Losses
import SoftPlc.Proofs.Log.Records
import SoftPlc.Proofs.Supervisor.Failures
import SoftPlc.Proofs.Supervisor.Farewell
import SoftPlc.Proofs.Supervisor.Inquiries
import SoftPlc.Proofs.Supervisor.Launches
import SoftPlc.Proofs.Supervisor.Probes
import SoftPlc.Proofs.Supervisor.Requests
import SoftPlc.Proofs.Supervisor.SingleFlight
import SoftPlc.Proofs.Supervisor.SoleProbe
import SoftPlc.Proofs.Supervisor.Superseding
import SoftPlc.Proofs.Supervisor.Tours
import SoftPlc.Proofs.Supervisor.Verdicts
import SoftPlc.Proofs.Uptime.Rendering
