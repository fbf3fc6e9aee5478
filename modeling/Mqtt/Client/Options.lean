import Mqtt.Packet.Edit
import Mqtt.Client.Fault

/-!
# Options of a client

What a client is told before it connects, which combinations it refuses, and the CONNECT packet
that the options make.
-/
namespace Mqtt
open Wire

/-- The files and the name that a secured transport is set up from. -/
structure Tls where
  caFile : String
  certFile : Option String := none
  keyFile : Option String := none
  serverName : Option String := none
  deriving DecidableEq, Repr

/-- How often an unanswered packet is written, and how long each time is waited for the answer. -/
structure RetryPolicy where
  delay : Nat
  limit : Nat
  deriving DecidableEq, Repr

namespace RetryPolicy

def text (p : RetryPolicy) : String :=
  "RetryPolicy \x7b retry_delay: " ++ Span.text p.delay ++ ", max_retry_count: " ++
    toString p.limit ++ " \x7d"

end RetryPolicy

/-- Spans are in milliseconds, but `keepAlive` counts seconds. -/
structure Options where
  address : String
  clientId : String
  cleanSession : Bool := true
  keepAlive : UInt16 := 60
  retryDelay : Nat := 5000
  maxRetryCount : Nat := 3
  tickInterval : Nat := 1000
  will : Option Will := none
  username : Option String := none
  password : Option Bytes := none
  reconnect : Bool := true
  reconnectAttempts : Nat := 5
  tls : Option Tls := none
  deriving DecidableEq, Repr

namespace Options

def policy (o : Options) : RetryPolicy := ⟨o.retryDelay, o.maxRetryCount⟩

def keepAliveSpan (o : Options) : Nat := 1000 * o.keepAlive.toNat

/-- How long a client waits for the answer to its CONNECT. -/
def connackTimeout (o : Options) : Nat := if o.keepAlive = 0 then o.retryDelay else o.keepAliveSpan

/-- The first thing that is wrong with the options. -/
def fault? (o : Options) : Option OptionsFault :=
  if o.address = "" then some .emptyAddress
  else if o.maxRetryCount = 0 then some .noAttempts
  else if o.retryDelay = 0 then some .zeroRetryDelay
  else if o.tickInterval = 0 then some .zeroTickInterval
  else if o.password.isSome && o.username.isNone then some .passwordWithoutUsername
  else if o.clientId = "" && !o.cleanSession then some .emptyClientIdInKeptSession
  else if maxPrefixed < o.clientId.utf8ByteSize then some .clientIdTooLong
  else if o.password.any fun p => maxPrefixed < p.length then some .passwordTooLong
  else if o.will.any fun w => maxPrefixed < w.message.length then some .willMessageTooLong
  else none

def validate (o : Options) : Except ClientError Unit :=
  match o.fault? with
  | some fault => .error (.invalidOptions fault)
  | none => .ok ()

/-- The options with the client id that stands in for an empty one. -/
def withClientId (o : Options) (generated : String) : Options :=
  if o.clientId = "" then { o with clientId := generated } else o

/-- The packet that opens a connection. -/
def connectPacket (o : Options) : ConnectPacket :=
  let p := (ConnectPacket.new o.clientId).setCleanSession o.cleanSession
  let p := (p.setKeepAlive o.keepAlive).setWill o.will
  (p.setUsername o.username).setPassword o.password

end Options

end Mqtt
