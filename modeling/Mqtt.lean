import Mqtt.Packet.Bulk
import Mqtt.Stream
import Mqtt.Client
import Mqtt.Client.Transport
import Mqtt.Scenario
import Mqtt.Scenario.RetryTrial
import Mqtt.Proofs.RoundTrip
import Mqtt.Proofs.DeclaredSize
import Mqtt.Proofs.Chunks
import Mqtt.Proofs.Frame
import Mqtt.Proofs.ExactlyOnce
import Mqtt.Proofs.Releases
import Mqtt.Proofs.Discipline
import Mqtt.Proofs.Waiters
import Mqtt.Proofs.FreeIds
import Mqtt.Proofs.Grammar
import Mqtt.Proofs.Traffic
import Mqtt.Proofs.Course
import Mqtt.Proofs.Endings
import Mqtt.Proofs.FirstAnswer
import Mqtt.Proofs.Lives
import Mqtt.Proofs.Reconnection
import Mqtt.Proofs.Clients
import Mqtt.Proofs.Segments
import Mqtt.Proofs.BeforeConnack
import Mqtt.Proofs.Sendable
import Mqtt.Proofs.Watch
import Mqtt.Proofs.Acknowledgements
import Mqtt.Proofs.Requested
import Mqtt.Proofs.Directions
import Mqtt.Proofs.Reencoding
import Mqtt.Proofs.Setters
import Mqtt.Proofs.Repetitions
import Mqtt.Proofs.Filters
import Mqtt.Proofs.Resync
import Mqtt.Proofs.Receipts
import Mqtt.Proofs.WriteOrder
import Mqtt.Proofs.Calls
import Mqtt.Proofs.Deadlines
import Mqtt.Proofs.Closed
import Mqtt.Proofs.Leftovers
import Mqtt.Proofs.Rounds
import Mqtt.Proofs.Lengths
import Mqtt.Proofs.Oversize
