import Mqtt.Client.Connection

/-!
# From connect to the end

What one request to connect goes through: the transport is opened, a connection is driven until
it ends, and after a loss that can be made good the transport is opened again. Each step answers
the next phase, what it put out, and whether the transport is asked to open.
-/
namespace Mqtt

inductive Phase
  /-- The transport is being opened for the first time, for the call that waits. -/
  | opening (waiter : Waiter)
  /-- A connection, and when its session looks at the clock next. -/
  | driving (c : Connection) (nextTick : Time)
  /-- A connection whose DISCONNECT is being written, for a call that may wait, until a deadline. -/
  | closing (c : Connection) (deadline : Time) (caller : Option Waiter)
  /-- The wait before a lost connection is opened again. -/
  | pausing (due : Time)
  /-- The transport is being opened again, after so many failures. -/
  | reopening (failures : Nat)
  /-- The wait after a failure to open it again. -/
  | backingOff (failures : Nat) (due : Time)
  | ended

/-- What a step leaves. -/
structure Turn where
  phase : Phase
  output : Output := {}
  /-- Whether the transport is asked to open. -/
  dials : Bool := false

namespace Phase

def connection? : Phase → Option Connection
  | driving c _ | closing c _ _ => some c
  | opening _ | pausing _ | reopening _ | backingOff _ _ | ended => none

/-- The same phase with another state of its connection. -/
def withConnection (c : Connection) : Phase → Phase
  | driving _ nextTick => driving c nextTick
  | closing _ deadline caller => closing c deadline caller
  | phase => phase

def isEnded : Phase → Bool
  | ended => true
  | opening _ | driving _ _ | closing _ _ _ | pausing _ | reopening _ | backingOff _ _ => false

/-- When the clock matters next. -/
def due? : Phase → Option Time
  | driving _ nextTick => some nextTick
  | closing _ deadline _ => some deadline
  | pausing due | backingOff _ due => some due
  | opening _ | reopening _ | ended => none

/-- Tell a call that disconnects that it is done. -/
def release (caller : Option Waiter) : Output :=
  .ofAnswers (caller.toList.map fun w => ⟨w, .ok .disconnected⟩)

/-- A request to connect. -/
def start (waiter : Waiter) : Turn := ⟨opening waiter, {}, true⟩

/-- Drive a connection. A look at the clock right at its start would find nothing to do. -/
def drive (o : Options) (waiter : Option Waiter) (now : Time) : Turn :=
  let (c, output) := Connection.start o waiter now
  { phase := driving c (now + o.tickInterval), output := output }

/-- End a connection: its calls are answered, its exchanges forgotten and the application told.
It is opened again when the broker had accepted it and the loss can be made good.

The reader is taken to stop in this very step. Its task is only told to abort, which takes effect
where the task next waits; a packet that it is handing over just then is left out here. -/
def tearDown (o : Options) (c : Connection) (reason : DisconnectReason) (caller : Option Waiter)
    (now : Time) : Turn :=
  let (_, output) := c.session.reset
  { phase :=
      if c.session.isAccepted && reason.isRecoverable && o.reconnect then
        pausing (now + o.retryDelay)
      else ended
    output := output ++ .ofEvent (.disconnected reason) ++ release caller }

/-- The transport was opened. -/
def opened (o : Options) (now : Time) : Phase → Turn
  | opening waiter => drive o (some waiter) now
  | reopening _ => drive o none now
  | phase => { phase := phase }

/-- The wait after the `n`-th failure: a second, doubled each time, a minute at most. This stands for
the default schedule of the library for retries that times these attempts and is not modelled
itself; no proof uses more of it than that a wait is never zero. -/
def backoff (n : Nat) : Nat := min 60000 (1000 * Nat.pow 2 (n - 1))

/-- The transport could not be opened. -/
def refused (o : Options) (fault : TransportFault) (now : Time) : Phase → Turn
  | opening waiter =>
    { phase := ended, output := .ofAnswers [⟨waiter, .error (.transport fault)⟩] }
  | reopening failures =>
    if failures < o.reconnectAttempts then
      { phase := backingOff (failures + 1) (now + backoff (failures + 1)) }
    else { phase := ended, output := .ofEvent (.disconnected (.transport fault.message)) }
  | phase => { phase := phase }

/-- The application asks for the end, or has dropped the client. -/
def disconnect (o : Options) (caller : Option Waiter) (now : Time) : Phase → Turn
  | opening waiter =>
    { phase := ended, output := .ofAnswers [⟨waiter, .error .connectionLost⟩] ++ release caller }
  | driving c _ =>
    let a := c.session.disconnect c.isOpen now
    let c := c.after a
    match a.result with
    | .ok _ => { phase := closing c (now + o.retryDelay) caller, output := a.output }
    | .error _ => tearDown o c .requested caller now
  | pausing _ | reopening _ | backingOff _ _ => { phase := ended, output := release caller }
  | closing c deadline waiting => { phase := closing c deadline waiting }
  | ended => { phase := ended }

/-- Take the first reason why reader or writer ended. When the end was asked for, only the end of
the writer counts. -/
def observe (o : Options) (now : Time) : Phase → Turn
  | driving c nextTick =>
    match c.reasons with
    | reason :: _ => tearDown o c reason none now
    | [] => { phase := driving c nextTick }
  | closing c deadline caller =>
    if c.writer.isStopped then tearDown o c .requested caller now
    else { phase := closing c deadline caller }
  | phase => { phase := phase }

/-- Do what the clock asks for. -/
def elapse (o : Options) (now : Time) (phase : Phase) : Turn :=
  match phase with
  | driving c nextTick =>
    if now < nextTick then { phase := phase }
    else
      let a := c.tick now
      match a.result with
      | .ok _ => { phase := driving a.state (now + o.tickInterval), output := a.output }
      | .error reason =>
        let turn := tearDown o a.state reason none now
        { turn with output := a.output ++ turn.output }
  | closing c deadline caller =>
    if now < deadline then { phase := phase } else tearDown o c .requested caller now
  | pausing due => if now < due then { phase := phase } else ⟨reopening 0, {}, true⟩
  | backingOff failures due =>
    if now < due then { phase := phase } else ⟨reopening failures, {}, true⟩
  | opening _ | reopening _ | ended => { phase := phase }

end Phase

end Mqtt
