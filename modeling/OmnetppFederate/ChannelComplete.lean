import OmnetppFederate.ChannelRead

/-! When the readers of a body succeed. They report a failure only for a prefix that is too long;
`readUpdateNode` also compares the bytes received with the size announced, and nobody looks at what the
parse answers. So each of them succeeds on streams that end early or hold no message at all. -/

namespace OmnetppFederate

open Lib ClientServerChannel

inductive BodyReader where
  | init
  | updateNode
  | configurationMessage
  | sendMessage
  | timeMessage
  deriving DecidableEq

variable (pb : Protobuf) (memory : Memory) (stream : List UInt8)

/-- A length prefix arrives completely, then as many bytes of a body, and the body is a message with all
required fields. -/
def HoldsMessage {α : Type} (format : MessageFormat α) : Prop :=
  ∃ bytes body rest, stream = bytes ++ (body ++ rest) ∧ IsVarint body.length bytes ∧
    (format.parse body).complete = true

namespace BodyReader

/-- The message each reader asks for. -/
def Holds : BodyReader → Prop
  | init => HoldsMessage stream pb.initMessage
  | updateNode => HoldsMessage stream pb.updateNode
  | configurationMessage => HoldsMessage stream pb.configureRadioMessage
  | sendMessage => HoldsMessage stream pb.sendMessageMessage
  | timeMessage => HoldsMessage stream pb.timeMessage

/-- The reader reports success by its return value, or acknowledges the message. -/
def Succeeds : BodyReader → Prop
  | init => (readInit pb memory stream).1.returnCode = 0
  | updateNode => (ClientServerChannel.readUpdateNode pb memory stream).1.returnCode = 0
  | configurationMessage =>
      (ClientServerChannel.readConfigurationMessage pb memory stream).1.returnCode = 0 ∨
        commandFrame .success ∈ (ClientServerChannel.readConfigurationMessage pb memory stream).1.written
  | sendMessage =>
      (ClientServerChannel.readSendMessage pb memory stream).1.returnCode = 0 ∨
        commandFrame .success ∈ (ClientServerChannel.readSendMessage pb memory stream).1.written
  | timeMessage => (readTimeMessage pb memory stream).1 ≠ -1

/-- The streams that hold no message but are rejected all the same, apart from overlong prefixes: where the
body ends early for `readUpdateNode`, and where the buffer parses as the time that stands for a failure. -/
def Rejects : BodyReader → Prop
  | updateNode => ∃ n rest, Announces memory.bodyByte stream n rest ∧ rest.length < n
  | timeMessage => ∃ n rest, Announces memory.bodyByte stream n rest ∧
      (pb.timeMessage.parse (padded n rest)).message = -1
  | init | configurationMessage | sendMessage => False

end BodyReader

/-! ### What an announced body leads to -/

variable {pb memory stream}

theorem Announces.not_overlong {currentByte : UInt8} {rest : List UInt8} {n : Nat}
    (h : Announces currentByte stream n rest) : ¬ Overlong stream := by
  intro hoverlong
  have hnone := readVarintPrefix_of_overlong currentByte hoverlong
  rw [readVarintPrefix_of_announces h] at hnone
  cases hnone

theorem Announces.unique {currentByte : UInt8} {rest rest' : List UInt8} {n n' : Nat}
    (h : Announces currentByte stream n rest) (h' : Announces currentByte stream n' rest') :
    n = n' ∧ rest = rest' := by
  have hread := readVarintPrefix_of_announces h
  rw [readVarintPrefix_of_announces h'] at hread
  cases hread
  exact ⟨rfl, rfl⟩

namespace BodyReader

theorem not_succeeds_of_overlong (h : Overlong stream) (reader : BodyReader) :
    ¬ reader.Succeeds pb memory stream := by
  have hnone {α : Type} (format : MessageFormat α) :
      ∃ rest, readBody format memory.bodyByte stream = (none, rest) :=
    ⟨_, Prod.ext (readBody_of_overlong h) rfl⟩
  cases reader with
  | init =>
      obtain ⟨rest, hbody⟩ := hnone pb.initMessage
      simp [Succeeds, readInit, hbody]
  | updateNode =>
      obtain ⟨rest, hbody⟩ := hnone pb.updateNode
      simp [Succeeds, ClientServerChannel.readUpdateNode, hbody]
  | configurationMessage =>
      obtain ⟨rest, hbody⟩ := hnone pb.configureRadioMessage
      simp [Succeeds, ClientServerChannel.readConfigurationMessage, hbody]
  | sendMessage =>
      obtain ⟨rest, hbody⟩ := hnone pb.sendMessageMessage
      simp [Succeeds, ClientServerChannel.readSendMessage, hbody]
  | timeMessage =>
      obtain ⟨rest, hbody⟩ := hnone pb.timeMessage
      simp [Succeeds, readTimeMessage, hbody]

/-- With a prefix that is accepted, a reader succeeds unless it rejects the stream. -/
theorem succeeds_iff_of_announces {rest : List UInt8} {n : Nat}
    (h : Announces memory.bodyByte stream n rest) (reader : BodyReader) :
    reader.Succeeds pb memory stream ↔ ¬ reader.Rejects pb memory stream := by
  cases reader with
  | init => simp [Succeeds, Rejects, readInit, readBody_of_announces h]
  | configurationMessage =>
      simp [Succeeds, Rejects, ClientServerChannel.readConfigurationMessage, readBody_of_announces h,
        OmnetppFederate.readConfigurationMessage]
  | sendMessage =>
      simp [Succeeds, Rejects, ClientServerChannel.readSendMessage, readBody_of_announces h,
        OmnetppFederate.readSendMessage]
  | updateNode =>
      have hrejects : updateNode.Rejects pb memory stream ↔ rest.length < n := by
        constructor
        · rintro ⟨n', rest', h', hshort⟩
          obtain ⟨rfl, rfl⟩ := h.unique h'
          exact hshort
        · exact fun hshort => ⟨n, rest, h, hshort⟩
      rw [hrejects, Succeeds, ClientServerChannel.readUpdateNode, readBody_of_announces h]
      by_cases hshort : rest.length < n
      · simp [hshort, Nat.min_eq_right hshort.le, hshort.ne']
      · simp [hshort, Nat.min_eq_left (Nat.le_of_not_lt hshort), OmnetppFederate.readUpdateNode]
  | timeMessage =>
      have hrejects : timeMessage.Rejects pb memory stream ↔
          (pb.timeMessage.parse (padded n rest)).message = -1 := by
        constructor
        · rintro ⟨n', rest', h', htime⟩
          obtain ⟨rfl, rfl⟩ := h.unique h'
          exact htime
        · exact fun htime => ⟨n, rest, h, htime⟩
      rw [hrejects, Succeeds, readTimeMessage, readBody_of_announces h]

/-- A reader succeeds only on a complete message exactly where the stream holds one, where its prefix is too
long, or where this reader rejects it. -/
theorem succeeds_only_on_message_iff (pb : Protobuf) (memory : Memory) (stream : List UInt8)
    (reader : BodyReader) :
    (reader.Succeeds pb memory stream → reader.Holds pb stream) ↔
      Overlong stream ∨ reader.Holds pb stream ∨ reader.Rejects pb memory stream := by
  rcases announces_or_overlong memory.bodyByte stream with ⟨n, rest, h⟩ | hoverlong
  · have hoverlong := h.not_overlong
    rw [succeeds_iff_of_announces h]
    tauto
  · have hfails : ¬ reader.Succeeds pb memory stream := not_succeeds_of_overlong hoverlong reader
    tauto

/-- The one byte 0 announces an empty body, in which every required field is missing: the message is read
as defaults and acknowledged. -/
theorem empty_send_message_succeeds :
    ¬ (sendMessage.Succeeds .small .zero [0] → sendMessage.Holds .small [0]) := by
  intro h
  have hsucceeds : sendMessage.Succeeds .small .zero [0] := .inl rfl
  obtain ⟨bytes, body, rest, -, -, hcomplete⟩ := h hsucceeds
  exact Bool.false_ne_true hcomplete

end BodyReader

end OmnetppFederate
