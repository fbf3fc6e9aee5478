import Mqtt.Wire.Field

/-!
# Topic filters

The pattern of a subscription. Its levels, cut at every slash, are plain, a single `+`, or a
single `#` at the very end.
-/
namespace Mqtt
open Wire

/-- The levels of a filter: the parts between slashes, one more than there are slashes. -/
def topicLevels : List Char → List (List Char)
  | [] => [[]]
  | c :: cs =>
    if c = '/' then [] :: topicLevels cs
    else
      match topicLevels cs with
      | [] => [[c]]
      | level :: levels => (c :: level) :: levels

def isPlainLevel (level : List Char) : Bool := level.all fun c => c != '#' && c != '+'

def areFilterLevels : List (List Char) → Bool
  | [] => true
  | [level] => level == ['#'] || level == ['+'] || isPlainLevel level
  | level :: levels => (level == ['+'] || isPlainLevel level) && areFilterLevels levels

def isTopicFilter (s : String) : Bool :=
  s != "" && s.utf8ByteSize ≤ maxPrefixed && areFilterLevels (topicLevels s.toList)

structure TopicFilter where
  text : String
  valid : isTopicFilter text = true
  deriving DecidableEq, Repr

namespace TopicFilter

def ofText? (s : String) : Option TopicFilter :=
  if h : isTopicFilter s = true then some ⟨s, h⟩ else none

/-- What is said of a text that is no topic filter. -/
def refusal (s : String) : String := "invalid topic filter (" ++ s ++ ")"

/-- Why no topic filter could be read. -/
inductive ReadError
  | wire (fault : Fault)
  | invalid (text : String)
  deriving DecidableEq, Repr

def ReadError.message : ReadError → String
  | wire fault => fault.message
  | invalid text => refusal text

def write (t : TopicFilter) : Written := Text.write t.text

def width (t : TopicFilter) : UInt32 := Text.width t.text

def read (bs : Bytes) : Except (Stop ReadError) (TopicFilter × Bytes) :=
  match Text.read bs with
  | .error stop => .error (stop.map .wire)
  | .ok (s, rest) =>
    match ofText? s with
    | some t => .ok (t, rest)
    | none => .error ⟨.invalid s, rest⟩

@[simp] theorem ofText?_text (t : TopicFilter) : ofText? t.text = some t := by
  simp [ofText?, t.valid]

end TopicFilter

end Mqtt
