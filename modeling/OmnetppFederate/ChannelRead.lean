import OmnetppFederate.ChannelStream

/-! What the channel's readers take off the connection. `Announces` says which size a stream announces and
where its body starts, for streams that end anywhere; the loop of `readVarintPrefix` computes just that. -/

namespace OmnetppFederate

open Lib

theorem continues_iff (byte : UInt8) : byte &&& 0x80 = 0 ↔ byte.toNat < 128 := by
  have hbits : ∀ i : Fin 256, (i.val &&& 128 = 0) ↔ i.val < 128 := by decide +kernel
  rw [← UInt8.toNat_inj, UInt8.toNat_and]
  exact hbits ⟨byte.toNat, byte.toNat_lt⟩

theorem toNat_payload (byte : UInt8) : (byte &&& 0x7f).toNat = byte.toNat % 128 := by
  rw [UInt8.toNat_and]
  exact Nat.and_two_pow_sub_one_eq_mod byte.toNat 7

/-- The next seven bits are added above those read so far. -/
theorem or_payload {value k : Nat} (hvalue : value < 2 ^ (7 * k)) (byte : UInt8) :
    value ||| (byte &&& 0x7f).toNat <<< (7 * k) = value + 2 ^ (7 * k) * (byte.toNat % 128) := by
  rw [toNat_payload, Nat.or_comm, ← Nat.shiftLeft_add_eq_or_of_lt hvalue, Nat.shiftLeft_eq, Nat.add_comm,
    Nat.mul_comm]

/-- The stream announces a body of this size, which starts at `rest`. A prefix that is cut off is read as if
a zero followed, and without any byte the variable's old content is the prefix. -/
inductive Announces (currentByte : UInt8) : List UInt8 → Nat → List UInt8 → Prop where
  | complete {bytes : List UInt8} {n : Nat} (hvarint : IsVarint n bytes) (hlength : bytes.length ≤ 4)
      (rest : List UInt8) : Announces currentByte (bytes ++ rest) n rest
  | cutOff {bytes : List UInt8} {n : Nat} (hvarint : IsVarint n (bytes ++ [0])) (hne : bytes ≠ [])
      (hlength : bytes.length < 4) : Announces currentByte bytes n []
  | silent : Announces currentByte [] (currentByte.toNat % 128) []

/-- More bytes of prefix than are accepted. -/
def Overlong (stream : List UInt8) : Prop :=
  4 ≤ stream.length ∧ ∀ byte ∈ stream.take 4, 128 ≤ byte.toNat

instance (stream : List UInt8) : Decidable (Overlong stream) :=
  @instDecidableAnd _ _ (Nat.decLe _ _) (List.decidableBAll _ _)

/-- Every stream announces a size, unless its prefix is too long. -/
theorem announces_or_overlong (currentByte : UInt8) (stream : List UInt8) :
    (∃ n rest, Announces currentByte stream n rest) ∨ Overlong stream := by
  obtain ⟨bytes, rest, rfl, hmore, hrest⟩ := split_continuing stream
  by_cases hlength : 4 ≤ bytes.length
  · right
    refine ⟨by simp only [List.length_append]; omega, fun byte hbyte => ?_⟩
    rw [List.take_append_of_le_length hlength] at hbyte
    exact hmore byte (List.mem_of_mem_take hbyte)
  · left
    rcases hrest with rfl | ⟨byte, later, rfl, hlast⟩
    · rw [List.append_nil]
      by_cases hne : bytes = []
      · subst hne
        exact ⟨_, _, .silent⟩
      · have hzero : (0 : UInt8).toNat < 128 := by decide
        obtain ⟨n, hn⟩ := exists_isVarint hmore hzero
        exact ⟨n, [], .cutOff hn hne (by omega)⟩
    · obtain ⟨n, hn⟩ := exists_isVarint hmore hlast
      refine ⟨n, later, ?_⟩
      rw [← List.singleton_append, ← List.append_assoc]
      exact .complete hn (by simp only [List.length_append, List.length_singleton]; omega) later

/-! ### The loop -/

namespace ClientServerChannel

section Loop

variable {numBytes : Nat} {currentByte : UInt8} (value : Nat)

theorem readVarintLoop_last (hlast : currentByte.toNat < 128) (stream : List UInt8) :
    readVarintLoop numBytes value currentByte stream = (some value, stream) := by
  have h := (continues_iff currentByte).mpr hlast
  cases stream <;> rw [readVarintLoop, if_pos h]

theorem readVarintLoop_nil (hcontinues : 128 ≤ currentByte.toNat) :
    readVarintLoop numBytes value currentByte [] = (if 4 < numBytes + 1 then none else some value, []) := by
  rw [readVarintLoop, if_neg (by rw [continues_iff]; omega)]

theorem readVarintLoop_cons (hcontinues : 128 ≤ currentByte.toNat) (byte : UInt8) (stream : List UInt8) :
    readVarintLoop numBytes value currentByte (byte :: stream) =
      if 4 < numBytes + 1 then (none, stream)
      else
        readVarintLoop (numBytes + 1) (value ||| (byte &&& 0x7f).toNat <<< (7 * numBytes)) byte stream := by
  rw [readVarintLoop, if_neg (by rw [continues_iff]; omega)]

end Loop

/-- `k` bytes have been read before the current one, and `value` is their value. The result is the value of
the whole prefix. -/
theorem readVarintLoop_isVarint {n : Nat} {currentByte : UInt8} {bytes : List UInt8}
    (h : IsVarint n (currentByte :: bytes)) {k value : Nat} (hvalue : value < 2 ^ (7 * k))
    (hlength : k + 1 + bytes.length ≤ 4) (rest : List UInt8) :
    readVarintLoop (k + 1) (value + 2 ^ (7 * k) * (currentByte.toNat % 128)) currentByte (bytes ++ rest) =
      (some (value + 2 ^ (7 * k) * n), rest) := by
  induction bytes generalizing n currentByte k value with
  | nil =>
      cases h with
      | last hlast =>
          rw [readVarintLoop_last _ hlast, Nat.mod_eq_of_lt hlast]
          rfl
      | more hmore hrest => exact absurd rfl hrest.ne_nil
  | cons byte bytes ih =>
      cases h with
      | more hmore hrest =>
          rw [List.length_cons] at hlength
          have hpayload : currentByte.toNat % 128 = currentByte.toNat - 128 := by
            have := currentByte.toNat_lt
            omega
          have hpow : 2 ^ (7 * (k + 1)) = 2 ^ (7 * k) * 128 := by rw [Nat.mul_succ, Nat.pow_add]
          have hnext : value + 2 ^ (7 * k) * (currentByte.toNat % 128) < 2 ^ (7 * (k + 1)) := by
            have hmod : currentByte.toNat % 128 ≤ 127 := by omega
            have hmul := Nat.mul_le_mul_left (2 ^ (7 * k)) hmod
            omega
          rw [List.cons_append, readVarintLoop_cons _ hmore, if_neg (by omega), or_payload hnext,
            ih hrest hnext (by omega), hpow, hpayload, Nat.mul_add, Nat.mul_assoc, Nat.add_assoc]

/-- A zero at the end of the stream changes nothing. -/
theorem readVarintLoop_zero {numBytes : Nat} {currentByte : UInt8} {bytes : List UInt8} (value : Nat)
    (hcontinues : 128 ≤ currentByte.toNat) (hmore : ∀ byte ∈ bytes, 128 ≤ byte.toNat)
    (hlength : numBytes + bytes.length < 4) :
    readVarintLoop numBytes value currentByte bytes =
      readVarintLoop numBytes value currentByte (bytes ++ [0]) := by
  induction bytes generalizing numBytes currentByte value with
  | nil =>
      rw [List.length_nil] at hlength
      rw [readVarintLoop_nil _ hcontinues, List.nil_append, readVarintLoop_cons _ hcontinues,
        if_neg (by omega), if_neg (by omega), readVarintLoop_last _ (by decide)]
      simp
  | cons byte bytes ih =>
      rw [List.length_cons] at hlength
      rw [List.cons_append, readVarintLoop_cons _ hcontinues, readVarintLoop_cons _ hcontinues,
        if_neg (by omega), if_neg (by omega)]
      exact ih _ (hmore byte List.mem_cons_self) (fun byte hbyte => hmore byte (List.mem_cons_of_mem _ hbyte))
        (by omega)

/-- Four continuing bytes end the loop without a size. -/
theorem readVarintLoop_overlong {numBytes : Nat} {currentByte : UInt8} {bytes : List UInt8} (value : Nat)
    (hcontinues : 128 ≤ currentByte.toNat) (hmore : ∀ byte ∈ bytes, 128 ≤ byte.toNat)
    (hlength : numBytes + bytes.length = 4) (rest : List UInt8) :
    (readVarintLoop numBytes value currentByte (bytes ++ rest)).1 = none := by
  induction bytes generalizing numBytes currentByte value with
  | nil =>
      rw [List.length_nil, Nat.add_zero] at hlength
      rw [List.nil_append, hlength]
      cases rest with
      | nil => rw [readVarintLoop_nil _ hcontinues, if_pos (by decide)]
      | cons byte rest => rw [readVarintLoop_cons _ hcontinues, if_pos (by decide)]
  | cons byte bytes ih =>
      rw [List.length_cons] at hlength
      rw [List.cons_append, readVarintLoop_cons _ hcontinues, if_neg (by omega)]
      exact ih _ (hmore byte List.mem_cons_self) (fun byte hbyte => hmore byte (List.mem_cons_of_mem _ hbyte))
        (by omega)

theorem readVarintPrefix_cons (currentByte byte : UInt8) (stream : List UInt8) :
    readVarintPrefix currentByte (byte :: stream) =
      readVarintLoop 1 (0 + 2 ^ (7 * 0) * (byte.toNat % 128)) byte stream := by
  rw [readVarintPrefix, recvByte]
  simp only [toNat_payload, Nat.mul_zero, Nat.pow_zero, Nat.one_mul, Nat.zero_add]

theorem readVarintPrefix_isVarint (currentByte : UInt8) {n : Nat} {bytes : List UInt8} (h : IsVarint n bytes)
    (hlength : bytes.length ≤ 4) : Reads (readVarintPrefix currentByte) bytes (some n) := by
  intro rest
  obtain ⟨byte, bytes, rfl⟩ := List.exists_cons_of_ne_nil h.ne_nil
  rw [List.length_cons] at hlength
  rw [List.cons_append, readVarintPrefix_cons, readVarintLoop_isVarint h (by simp) (by omega)]
  simp

/-- `readVarintPrefix` finds what the stream announces. -/
theorem readVarintPrefix_of_announces {currentByte : UInt8} {stream rest : List UInt8} {n : Nat}
    (h : Announces currentByte stream n rest) : readVarintPrefix currentByte stream = (some n, rest) := by
  cases h with
  | complete hvarint hlength => exact readVarintPrefix_isVarint currentByte hvarint hlength rest
  | cutOff hvarint hne hlength =>
      have hmore := hvarint.all_more_of_append (List.cons_ne_nil 0 [])
      have hread := readVarintPrefix_isVarint currentByte hvarint (by simp; omega) []
      obtain ⟨byte, bytes, rfl⟩ := List.exists_cons_of_ne_nil hne
      rw [List.length_cons] at hlength
      rw [List.append_nil, List.cons_append, readVarintPrefix_cons] at hread
      rw [readVarintPrefix_cons, readVarintLoop_zero _ (hmore byte List.mem_cons_self)
        (fun byte hbyte => hmore byte (List.mem_cons_of_mem _ hbyte)) (by omega), hread]
  | silent =>
      rw [readVarintPrefix, recvByte]
      dsimp only
      rw [toNat_payload]
      by_cases hlast : currentByte.toNat < 128
      · rw [readVarintLoop_last _ hlast]
      · rw [readVarintLoop_nil _ (Nat.le_of_not_lt hlast), if_neg (by decide)]

theorem readVarintPrefix_of_overlong (currentByte : UInt8) {stream : List UInt8} (h : Overlong stream) :
    (readVarintPrefix currentByte stream).1 = none := by
  obtain ⟨hlength, hmore⟩ := h
  have hne : stream ≠ [] := by
    rintro rfl
    simp at hlength
  obtain ⟨byte, stream, rfl⟩ := List.exists_cons_of_ne_nil hne
  rw [List.take_succ_cons] at hmore
  rw [List.length_cons] at hlength
  rw [readVarintPrefix_cons, ← List.take_append_drop 3 stream]
  exact readVarintLoop_overlong _ (hmore byte List.mem_cons_self)
    (fun byte hbyte => hmore byte (List.mem_cons_of_mem _ hbyte)) (by simp; omega) _

/-- The buffer for a body of size `n`: what arrives, and zeros where the stream ends. -/
def padded (n : Nat) (stream : List UInt8) : List UInt8 :=
  stream.take n ++ List.replicate (n - stream.length) 0

theorem recv_replicate (n : Nat) (stream : List UInt8) :
    recv n (List.replicate n 0) stream = ((min n stream.length, padded n stream), stream.drop n) := by
  simp only [recv, padded, List.length_replicate, Nat.min_self, List.length_take, List.drop_replicate]
  rw [show n - min n stream.length = n - stream.length by omega]
  rcases Nat.le_total n stream.length with hle | hle
  · rw [Nat.min_eq_left hle]
  · rw [Nat.min_eq_right hle, List.drop_of_length_le (Nat.le_refl _), List.drop_of_length_le hle]

theorem padded_append (bytes rest : List UInt8) : padded bytes.length (bytes ++ rest) = bytes := by
  simp [padded]

section Bodies

variable {α : Type} {format : MessageFormat α} {currentByte : UInt8}

theorem readBody_of_announces {stream rest : List UInt8} {n : Nat} (h : Announces currentByte stream n rest) :
    readBody format currentByte stream =
      (some ⟨n, min n rest.length, format.parse (padded n rest)⟩, rest.drop n) := by
  simp only [readBody, readVarintPrefix_of_announces h, recv_replicate]

theorem readBody_of_overlong {stream : List UInt8} (h : Overlong stream) :
    (readBody format currentByte stream).1 = none := by
  rw [readBody]
  split
  · rfl
  · next hread =>
      have hnone := readVarintPrefix_of_overlong currentByte h
      rw [hread] at hnone
      cases hnone

end Bodies

theorem announces_frame (currentByte : UInt8) {body : List UInt8} (hshort : body.length < 2 ^ 28)
    (rest : List UInt8) : Announces currentByte (frame body ++ rest) body.length (body ++ rest) := by
  rw [frame, List.append_assoc]
  exact .complete (isVarint_varint _) (length_varint_le 3 hshort) _

variable {pb : Protobuf}

theorem reads_readBody {α : Type} {format : MessageFormat α} {message : α} (currentByte : UInt8)
    (body : Serialised format message) :
    Reads (readBody format currentByte) (frame body.bytes)
      (some ⟨body.bytes.length, body.bytes.length, ⟨true, message⟩⟩) := by
  intro rest
  rw [readBody_of_announces (announces_frame currentByte body.short rest), padded_append,
    format.parse_serialised body.serialises, List.drop_left]
  simp

theorem reads_readCommand {command : Proto.CommandType} (currentByte : UInt8)
    (body : Serialised pb.commandMessage command) :
    Reads (readCommand pb currentByte) (frame body.bytes) (protoCMDToCMD command) := by
  intro rest
  have hsize : 0 < body.bytes.length := List.length_pos_of_ne_nil (pb.command_ne_nil body.serialises)
  simp only [readCommand, readCommandArriving,
    readVarintPrefix_of_announces (announces_frame currentByte body.short rest), Option.getD_none,
    recv_replicate, padded_append, List.length_append, List.drop_left]
  simp [hsize, pb.commandMessage.parse_serialised body.serialises]

theorem reads_readUpdateNode {message : Proto.UpdateNode} (memory : Memory)
    (body : Serialised pb.updateNode message) :
    Reads (readUpdateNode pb memory) (frame body.bytes)
      (OmnetppFederate.readUpdateNode memory.updateReturn message) := by
  intro rest
  rw [readUpdateNode, reads_readBody memory.bodyByte body rest]
  simp

theorem reads_readTimeMessage {time : Int} (memory : Memory) (body : Serialised pb.timeMessage time) :
    Reads (readTimeMessage pb memory) (frame body.bytes) time := by
  intro rest
  rw [readTimeMessage, reads_readBody memory.bodyByte body rest]

theorem reads_readConfigurationMessage {message : Proto.ConfigureRadioMessage} (memory : Memory)
    (body : Serialised pb.configureRadioMessage message) :
    Reads (readConfigurationMessage pb memory) (frame body.bytes)
      (OmnetppFederate.readConfigurationMessage memory.configMessage message) := by
  intro rest
  rw [readConfigurationMessage, reads_readBody memory.bodyByte body rest]

theorem reads_readSendMessage {message : Proto.SendMessageMessage} (memory : Memory)
    (body : Serialised pb.sendMessageMessage message) :
    Reads (readSendMessage pb memory) (frame body.bytes)
      (OmnetppFederate.readSendMessage memory.sendMessage message) := by
  intro rest
  rw [readSendMessage, reads_readBody memory.bodyByte body rest]

end ClientServerChannel

end OmnetppFederate
