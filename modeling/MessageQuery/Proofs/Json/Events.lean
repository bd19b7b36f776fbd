import MessageQuery.Message
import MessageQuery.Proofs.Json.Records

/-!
# Events read back

The text of an event is read as the data of its fields, and these make up the event again. The
body stands one level down, so it may nest one level less than a value of its own.
-/

namespace MessageQuery

open Document Json Json.Reader

variable {depth : Nat}

/-- A text is loaded as what its datum means. -/
theorem Json.load_eq_of_reads {α : Type} {shape : Shape} {meaning? : Datum → Option α}
    {cs : List Char} {datum : Datum} {meant : α} (reads : Reads (shaped shape maxDepth) cs datum)
    (isMeant : meaning? datum = some meant) :
    load shape meaning? (String.ofList cs) = .ok meant := by
  have loads : Reader.load shape (String.ofList cs) = .ok datum := run_eq_of_reads reads
  unfold load
  rw [loads]
  dsimp only [Bind.bind, Except.bind]
  rw [isMeant]
  rfl

namespace Time

/-- What is read from the text of a time. -/
def datum (time : Time) : Datum :=
  .list [.word time.seconds.toNat, .word time.nanoseconds.toNat]

theorem ofDatum?_datum (time : Time) : ofDatum? time.datum = some time := by
  unfold datum ofDatum?
  dsimp only
  rw [UInt32.ofNat_toNat, UInt32.ofNat_toNat]

theorem reads_write (time : Time) :
    Reads (shaped shape (depth + 1)) time.write time.datum := by
  have seconds := @reads_word depth 32 _ time.seconds.toNat_lt (by decide)
  have nanoseconds := @reads_word depth 32 _ time.nanoseconds.toNat_lt (by decide)
  exact reads_record (.given seconds (.given nanoseconds .nil)) (by decide)

end Time

namespace MessageEvent

def sizeDatum : Option UInt64 → Datum
  | none => .absent
  | some size => .word size.toNat

/-- What is read from the text of an event. -/
def datum (event : MessageEvent) : Datum :=
  .list [.text event.topic, event.receiveTime.datum, .value event.message.normal,
    sizeDatum event.sizeInBytes]

theorem sizeOfDatum?_sizeDatum (size? : Option UInt64) :
    sizeOfDatum? (sizeDatum size?) = some size? := by
  cases size? with
  | none => rfl
  | some size =>
      unfold sizeDatum sizeOfDatum?
      dsimp only
      rw [UInt64.ofNat_toNat]

theorem ofDatum?_datum (event : MessageEvent) :
    ofDatum? event.datum = some { event with message := event.message.normal } := by
  unfold datum ofDatum?
  dsimp only
  rw [Time.ofDatum?_datum, sizeOfDatum?_sizeDatum]
  rfl

theorem reads_write {event : MessageEvent} (plain : event.message.IsPlain)
    (shallow : event.message.nesting ≤ depth + 1) :
    Reads (shaped shape (depth + 2)) event.write event.datum := by
  have topic := @reads_text (depth + 1) event.topic
  have time := @Time.reads_write depth event.receiveTime
  have message := reads_plainValue plain shallow
  unfold write datum
  refine reads_record (.given topic (.given time (.given message ?_))) (by decide)
  cases event.sizeInBytes with
  | none => exact .left .nil
  | some size => exact .given (reads_optionalWord size.toNat_lt (by decide)) .nil

theorem ofJson?_write {event : MessageEvent} (plain : event.message.IsPlain)
    (shallow : event.message.nesting ≤ 126) :
    ofJson? (String.ofList event.write) =
      .ok { event with message := event.message.normal } :=
  load_eq_of_reads (reads_write plain shallow) (ofDatum?_datum event)

end MessageEvent

/-- Values and events are read back from their texts up to the form of their integers, which makes
no difference to equality. -/
theorem Json.roundtrip :
    (∀ v : Value, v.IsPlain → v.nesting ≤ 127 →
      Value.ofJson? v.toJson = .ok v.normal ∧ v.normal.equal v = true) ∧
    (∀ event : MessageEvent, event.message.IsPlain → event.message.nesting ≤ 126 →
      MessageEvent.ofJson? (String.ofList event.write) =
          .ok { event with message := event.message.normal } ∧
        event.message.normal.equal event.message = true) :=
  ⟨fun _ plain shallow => ⟨Value.ofJson?_toJson plain shallow, Value.normal_equal plain⟩,
    fun _ plain shallow => ⟨MessageEvent.ofJson?_write plain shallow, Value.normal_equal plain⟩⟩

/-- A body in which the number key comes after another key. -/
def sampleBody : Value :=
  .object [("!", .array [.number (.big 1000000000000000000000000000000), .number (.int (-7)),
      .number (.big 7), .number (.float (.ofDecimal true 1 (-1))), .object []]),
    (Value.numberKey, .string "\"\\\x00\n\u00e9"), ("nil", .null), ("true", .bool true)]

def sampleEvent : MessageEvent :=
  ⟨"/odom", ⟨4294967295, 5⟩, sampleBody, some 18446744073709551615⟩

theorem Json.roundtrip_sample :
    Value.ofJson? sampleBody.toJson = .ok sampleBody.normal ∧
      MessageEvent.ofJson? (String.ofList sampleEvent.write) =
        .ok { sampleEvent with message := sampleBody.normal } ∧
      sampleBody.normal.equal sampleBody = true := by
  have plain : sampleBody.IsPlain := by
    refine ⟨by unfold SortedByKey; decide, ?_, ⟨?_, ?_, ?_, ?_, ?_, trivial⟩, ?_⟩
    · rintro _ ⟨⟩
      decide
    · rintro _ ⟨⟩
    · rintro _ ⟨⟩
    · rintro _ ⟨⟩
    · rintro _ ⟨⟩
      decide +kernel
    · exact ⟨List.Pairwise.nil, nofun, trivial⟩
    · exact ⟨trivial, trivial, trivial, trivial⟩
  obtain ⟨bodyRead, same⟩ := roundtrip.1 sampleBody plain (by decide)
  exact ⟨bodyRead, (roundtrip.2 sampleEvent plain (by decide)).1, same⟩

end MessageQuery
