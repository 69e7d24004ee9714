import OmnetppFederate.ChannelRead

/-! A command body that arrives in two pieces. When the first `recv` of `readCommand` is interrupted, the
retry writes to the start of the buffer and asks for the whole body again instead of what is missing: the
piece that had arrived is overwritten, and as many bytes are taken off what follows the frame. -/

namespace OmnetppFederate

open Lib ClientServerChannel

/-- The whole frame is read with the same result and to the same place, whether or not the first `recv`
returns only `interrupted` bytes. -/
def ReadsAlike (pb : Protobuf) (currentByte : UInt8) (interrupted : Nat) (stream : List UInt8) : Prop :=
  readCommandArriving pb currentByte (some interrupted) stream = readCommand pb currentByte stream

namespace ClientServerChannel

variable {pb : Protobuf}

theorem recv_left (buffer body further : List UInt8) {arriving : Nat} (hbuffer : buffer.length = body.length)
    (harriving : arriving ≤ body.length) :
    recv arriving buffer (body ++ further) =
      ((arriving, body.take arriving ++ buffer.drop arriving), body.drop arriving ++ further) := by
  have hmin : min arriving buffer.length = arriving := by omega
  simp only [recv, hmin, List.take_append_of_le_length harriving, List.length_take,
    List.drop_append_of_le_length harriving, Nat.min_eq_left harriving]

theorem recv_rest (arriving : Nat) (buffer stream : List UInt8) :
    (recv arriving buffer stream).2 = stream.drop (min arriving buffer.length) := by
  rw [recv]
  rcases Nat.le_total (min arriving buffer.length) stream.length with hle | hle
  · rw [List.length_take, Nat.min_eq_left hle]
  · rw [List.length_take, Nat.min_eq_right hle, List.drop_of_length_le hle, List.drop_length]

/-- `readCommand` stops where its last `recv` does. -/
theorem readCommandArriving_rest {currentByte : UInt8} {stream rest : List UInt8} {n : Nat}
    (h : Announces currentByte stream n rest) (interrupted : Option Nat) :
    (readCommandArriving pb currentByte interrupted stream).2 =
      let ((res, messageBuffer), stream) := recv (interrupted.getD n) (List.replicate n 0) rest
      if 0 < n ∧ res ≠ n then (recv n messageBuffer stream).2 else stream := by
  simp only [readCommandArriving, readVarintPrefix_of_announces h]
  split_ifs <;> rfl

variable {body further : List UInt8}

/-- Where an uninterrupted read stops. -/
theorem readCommand_frame_rest (currentByte : UInt8) (hshort : body.length < 2 ^ 28) :
    (readCommand pb currentByte (frame body ++ further)).2 = further := by
  rw [readCommand, readCommandArriving_rest (announces_frame currentByte hshort further), Option.getD_none,
    recv_left _ _ _ (by simp) (Nat.le_refl _)]
  simp

/-- Where the read stops after a retry. -/
theorem readCommand_retry_rest (currentByte : UInt8) (hshort : body.length < 2 ^ 28) {interrupted : Nat}
    (hproper : interrupted < body.length) :
    (readCommandArriving pb currentByte (some interrupted) (frame body ++ further)).2 =
      further.drop interrupted := by
  have hsize : 0 < body.length := by omega
  have hbuffer : (body.take interrupted ++ (List.replicate body.length 0).drop interrupted).length =
      body.length := by
    simp only [List.length_append, List.length_take, List.length_drop, List.length_replicate]
    omega
  rw [readCommandArriving_rest (announces_frame currentByte hshort further), Option.getD_some,
    recv_left _ _ _ (by simp) hproper.le]
  dsimp only
  rw [if_pos ⟨hsize, hproper.ne⟩, recv_rest, hbuffer, Nat.min_self]
  -- of the `body.length` bytes asked for, only `body.length - interrupted` are left of the body
  rw [List.drop_append, List.drop_of_length_le (by simp), List.nil_append, List.length_drop,
    Nat.sub_sub_self hproper.le]

end ClientServerChannel

/-- However a proper part of the body arrives first, the read goes past the end of the frame. -/
theorem retry_reads_past_frame (pb : Protobuf) (currentByte : UInt8) (body further : List UInt8)
    (interrupted : Nat) (hshort : body.length < 2 ^ 28) (hpositive : 0 < interrupted)
    (hproper : interrupted < body.length) (harrives : interrupted ≤ further.length) :
    ¬ ReadsAlike pb currentByte interrupted (frame body ++ further) := by
  intro halike
  have hrest := congrArg (fun read => read.2.length) halike
  simp only [readCommand_frame_rest currentByte hshort,
    readCommand_retry_rest currentByte hshort hproper, List.length_drop] at hrest
  omega

theorem retry_reads_past_shutDown_frame :
    ¬ ReadsAlike .small 0 1 (frame [8, 2] ++ [2, 8, 20]) :=
  retry_reads_past_frame .small 0 [8, 2] [2, 8, 20] 1 (by decide) (by decide) (by decide) (by decide)

/-- SHUT_DOWN in two pieces, followed by ADVANCE_TIME: the length of the next frame is taken for the missing
byte, and neither command can be read any more. -/
theorem shutDown_lost_in_retry :
    ¬ ReadsAlike .small 0 1 [2, 8, 2, 2, 8, 20] ∧
      readCommand .small 0 [2, 8, 2, 2, 8, 20] = (.shutDown, [2, 8, 20]) ∧
      readCommandArriving .small 0 (some 1) [2, 8, 2, 2, 8, 20] = (.undefined, [8, 20]) := by
  unfold ReadsAlike
  decide

end OmnetppFederate
