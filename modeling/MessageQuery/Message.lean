import MessageQuery.Schema.Document

/-!
# Message events

A message as it was received: its topic, the time of receipt, the decoded body and, if known, its
size in bytes.
-/

namespace MessageQuery

open Document

structure Time where
  seconds : UInt32
  nanoseconds : UInt32
deriving DecidableEq

namespace Time

def shape : Shape :=
  .record (.cons "sec" (.word 32) none <| .cons "nsec" (.word 32) none .nil) false

def ofDatum? : Datum → Option Time
  | .list [.word seconds, .word nanoseconds] =>
      some ⟨UInt32.ofNat seconds, UInt32.ofNat nanoseconds⟩
  | _ => none

def write (time : Time) : List Char :=
  Json.writeObject
    [("sec", Text.digitsOfNat time.seconds.toNat),
      ("nsec", Text.digitsOfNat time.nanoseconds.toNat)]

end Time

structure MessageEvent where
  topic : String
  receiveTime : Time
  message : Value
  sizeInBytes : Option UInt64 := none

namespace MessageEvent

def shape : Shape :=
  .record
    (.cons "topic" .text none <| .cons "receiveTime" Time.shape none <|
      .cons "message" .value none <|
      .cons "sizeInBytes" (.optional (.word 64)) (some .absent) .nil)
    false

def sizeOfDatum? : Datum → Option (Option UInt64)
  | .absent => some none
  | .word size => some (some (UInt64.ofNat size))
  | _ => none

def ofDatum? : Datum → Option MessageEvent
  | .list [.text topic, time, .value message, size] => do
      return ⟨topic, ← Time.ofDatum? time, message, ← sizeOfDatum? size⟩
  | _ => none

def write (event : MessageEvent) : List Char :=
  Json.writeObject <|
    [("topic", Json.writeString event.topic), ("receiveTime", event.receiveTime.write),
      ("message", Json.writeValue event.message)] ++
    (match event.sizeInBytes with
      | some size => [("sizeInBytes", Text.digitsOfNat size.toNat)]
      | none => [])

def ofJson? : String → Except Json.Fault MessageEvent :=
  Json.load shape ofDatum?

end MessageEvent

end MessageQuery
