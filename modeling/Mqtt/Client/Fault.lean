import Mqtt.Packet.Error
import Mqtt.Client.Time

/-!
# What goes wrong for a client

Faults of the transport, options that contradict each other, the errors that calls answer, and
the reasons why a connection ends.
-/
namespace Mqtt

/-- Why a transport failed. -/
inductive TransportFault
  | refused
  | reset
  | brokenPipe
  | timedOut
  | hostUnreachable
  | endOfInput
  | missingFile
  | invalidAddress
  | invalidService
  | other (text : String)
  deriving DecidableEq, Repr

def TransportFault.message : TransportFault → String
  | refused => "connection refused"
  | reset => "connection reset"
  | brokenPipe => "broken pipe"
  | timedOut => "timed out"
  | hostUnreachable => "host unreachable"
  | endOfInput => "unexpected end of file"
  | missingFile => "No such file or directory (os error 2)"
  | invalidAddress => "invalid socket address"
  | invalidService => "invalid port value"
  | other text => text

/-- Why options are refused. -/
inductive OptionsFault
  | emptyAddress
  | noAttempts
  | zeroRetryDelay
  | zeroTickInterval
  | passwordWithoutUsername
  | emptyClientIdInKeptSession
  | clientIdTooLong
  | passwordTooLong
  | willMessageTooLong
  | serverName (name : String)
  | certificateWithoutKey
  | other (text : String)
  deriving DecidableEq, Repr

def OptionsFault.message : OptionsFault → String
  | emptyAddress => "broker address is empty"
  | noAttempts => "max retry count must be at least 1"
  | zeroRetryDelay => "retry delay must not be zero"
  | zeroTickInterval => "tick interval must not be zero"
  | passwordWithoutUsername => "password requires a username"
  | emptyClientIdInKeptSession => "empty client id requires a clean session"
  | clientIdTooLong => "client id too long"
  | passwordTooLong => "password too long"
  | willMessageTooLong => "will message too long"
  | serverName name => "invalid server name " ++ name ++ ": invalid dns name"
  | certificateWithoutKey => "client certificate and key must be given together"
  | other text => text

/-- What a call of the client may answer instead of a result. -/
inductive ClientError
  | transport (fault : TransportFault)
  | invalidOptions (fault : OptionsFault)
  | topicName (text : String)
  | topicFilter (text : String)
  | notConnected
  | alreadyConnected
  | payloadTooLarge (size : Nat)
  | connectionRefused (code : ConnectCode)
  | connackTimeout (limit : Nat)
  | connectionLost
  | retriesExhausted (id : UInt16)
  | invalidCertificate (text : String)
  /-- Nothing takes packets from the queue any more. -/
  | queueClosed
  deriving DecidableEq, Repr

def ClientError.message : ClientError → String
  | transport fault => "I/O: " ++ fault.message
  | invalidOptions fault => "invalid options: " ++ fault.message
  | topicName text => TopicName.refusal text
  | topicFilter text => TopicFilter.refusal text
  | notConnected => "not connected"
  | alreadyConnected => "already connected"
  | payloadTooLarge size => "payload too large: " ++ toString size ++ " bytes"
  | connectionRefused code => "connection refused: " ++ code.text
  | connackTimeout limit => "no CONNACK within " ++ Span.text limit
  | connectionLost => "connection lost"
  | retriesExhausted id => "packet #" ++ toString id.toNat ++ " exhausted its retries"
  | invalidCertificate text => "invalid certificate: " ++ text
  | queueClosed => "outbound channel closed"

/-- How a broker breaks the protocol. -/
inductive Violation
  | unexpectedConnack
  /-- A packet, told by its label, that came before the broker accepted the connection. -/
  | beforeConnack (label : String)
  /-- A packet, told by its label, that only clients may send. -/
  | fromServer (label : String)
  | unreadable (error : ReadError)
  deriving DecidableEq, Repr

def Violation.message : Violation → String
  | unexpectedConnack => "unexpected CONNACK"
  | beforeConnack label => label ++ " before CONNACK"
  | fromServer label => "server sent " ++ label
  | unreadable error => error.message

/-- Why a connection ended. -/
inductive DisconnectReason
  | requested
  | protocolViolation (violation : Violation)
  | transportClosed
  | transport (text : String)
  | keepAliveTimeout
  | connackTimeout
  | connectionRefused (code : ConnectCode)
  deriving DecidableEq, Repr

namespace DisconnectReason

def message : DisconnectReason → String
  | requested => "disconnect requested"
  | protocolViolation violation => "protocol violation: " ++ violation.message
  | transportClosed => "transport closed by peer"
  | transport text => "transport error: " ++ text
  | keepAliveTimeout => "broker did not answer PINGREQ"
  | connackTimeout => "no CONNACK in time"
  | connectionRefused code => "connection refused: " ++ code.text

/-- Whether it makes sense to connect again. -/
def isRecoverable : DisconnectReason → Bool
  | requested | connectionRefused _ => false
  | protocolViolation _ | transportClosed | transport _ | keepAliveTimeout | connackTimeout => true

/-- The reason that an error of the client's own machinery gives. -/
def ofError : ClientError → DisconnectReason
  | .queueClosed | .connectionLost => transportClosed
  | .transport fault => transport fault.message
  | .connectionRefused code => connectionRefused code
  | .connackTimeout _ => connackTimeout
  | error => transport error.message

end DisconnectReason

end Mqtt
