import Mqtt.Wire.Field

/-!
# Topic names

The address of a message: at most 65535 bytes of text without wildcards.
-/
namespace Mqtt
open Wire

/-- No wildcard, and short enough for a length prefix. -/
def isTopicName (s : String) : Bool :=
  s.utf8ByteSize ≤ maxPrefixed && s.toList.all fun c => c != '#' && c != '+'

structure TopicName where
  text : String
  valid : isTopicName text = true
  deriving DecidableEq, Repr

namespace TopicName

def ofText? (s : String) : Option TopicName :=
  if h : isTopicName s = true then some ⟨s, h⟩ else none

/-- What is said of a text that is no topic name. -/
def refusal (s : String) : String := "invalid topic name (" ++ s ++ ")"

/-- Why no topic name could be read. -/
inductive ReadError
  | wire (fault : Fault)
  | invalid (text : String)
  deriving DecidableEq, Repr

def ReadError.message : ReadError → String
  | wire fault => fault.message
  | invalid text => refusal text

def write (t : TopicName) : Written := Text.write t.text

def width (t : TopicName) : UInt32 := Text.width t.text

def read (bs : Bytes) : Except (Stop ReadError) (TopicName × Bytes) :=
  match Text.read bs with
  | .error stop => .error (stop.map .wire)
  | .ok (s, rest) =>
    match ofText? s with
    | some t => .ok (t, rest)
    | none => .error ⟨.invalid s, rest⟩

/-- Topics that start with a dollar sign belong to the server. -/
def isServerSpecific (t : TopicName) : Bool := t.text.toList.head? == some '$'

@[simp] theorem ofText?_text (t : TopicName) : ofText? t.text = some t := by
  simp [ofText?, t.valid]

end TopicName

end Mqtt
