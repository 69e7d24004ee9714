import Mathlib.Data.Nat.Digits.Lemmas
import OmnetppFederate.ChannelRead

/-! Which prefixes `readVarintPrefix` accepts, and what it returns for them. A prefix is complete at its
first byte with the top bit clear; the loop takes four bytes at most, on signed integers of 32 bits. -/

namespace OmnetppFederate

open Lib

/-- The position, counted from 1, of the first byte with the top bit clear; one more than the stream is long
if there is none. -/
def prefixLength (stream : List UInt8) : Nat := stream.findIdx (fun byte => byte.toNat < 128) + 1

/-- Seven bits of every byte, the lowest first. -/
def prefixValue (bytes : List UInt8) : Nat := (bytes.mapIdx fun i byte => byte.toNat % 128 * 128 ^ i).sum

theorem prefixValue_of_isVarint {n : Nat} {bytes : List UInt8} (h : IsVarint n bytes) :
    prefixValue bytes = n := by
  rw [prefixValue, h.eq_ofDigits, Nat.ofDigits_eq_sum_mapIdx]
  simp [List.mapIdx_eq_zipIdx_map, List.zipIdx_map, Function.comp_def]

/-- The bytes before the first one with the top bit clear do not have it clear. -/
theorem prefixLength_append {bytes : List UInt8} (hmore : ∀ byte ∈ bytes, 128 ≤ byte.toNat)
    {byte : UInt8} (hlast : byte.toNat < 128) (rest : List UInt8) :
    prefixLength (bytes ++ byte :: rest) = bytes.length + 1 := by
  induction bytes with
  | nil => simp [prefixLength, List.findIdx_cons, hlast]
  | cons first bytes ih =>
      have hfirst : ¬ first.toNat < 128 := Nat.not_lt.mpr (hmore first List.mem_cons_self)
      have hrest := ih fun byte hbyte => hmore byte (List.mem_cons_of_mem _ hbyte)
      rw [prefixLength] at hrest
      simp only [prefixLength, List.cons_append, List.findIdx_cons, hfirst, decide_false, cond_false, hrest,
        List.length_cons]

theorem prefixLength_of_all_more {stream : List UInt8} (hmore : ∀ byte ∈ stream, 128 ≤ byte.toNat) :
    prefixLength stream = stream.length + 1 := by
  rw [prefixLength, List.findIdx_eq_length.mpr]
  intro byte hbyte
  exact decide_eq_false (Nat.not_lt.mpr (hmore byte hbyte))

namespace ClientServerChannel

/-- Among streams of five bytes or more, the ones with a last byte among the first four. -/
theorem readVarintPrefix_of_prefixLength (currentByte : UInt8) {stream : List UInt8}
    (hlength : 5 ≤ stream.length) :
    if prefixLength stream ≤ 4 then
      readVarintPrefix currentByte stream =
        (some (prefixValue (stream.take (prefixLength stream))), stream.drop (prefixLength stream))
    else (readVarintPrefix currentByte stream).1 = none := by
  obtain ⟨bytes, rest, rfl, hmore, hrest⟩ := split_continuing stream
  rcases hrest with rfl | ⟨byte, later, rfl, hlast⟩
  · rw [List.append_nil] at hlength ⊢
    rw [prefixLength_of_all_more hmore, if_neg (by omega)]
    exact readVarintPrefix_of_overlong currentByte
      ⟨by omega, fun byte hbyte => hmore byte (List.mem_of_mem_take hbyte)⟩
  · rw [prefixLength_append hmore hlast]
    split_ifs with hshort
    · obtain ⟨n, hn⟩ := exists_isVarint hmore hlast
      have hsplit : bytes ++ byte :: later = (bytes ++ [byte]) ++ later := by simp
      have hsize : (bytes ++ [byte]).length = bytes.length + 1 := by simp
      have hread := readVarintPrefix_isVarint currentByte hn (by omega) later
      rw [hsplit, hread, ← hsize, List.take_left, List.drop_left, prefixValue_of_isVarint hn]
    · refine readVarintPrefix_of_overlong currentByte ⟨by omega, fun byte hbyte => ?_⟩
      rw [List.take_append_of_le_length (by omega)] at hbyte
      exact hmore byte (List.mem_of_mem_take hbyte)

theorem reads_readVarintPrefix (currentByte : UInt8) {n : Nat} (hn : n < 2 ^ 28) :
    Reads (readVarintPrefix currentByte) (varint n) (some n) :=
  readVarintPrefix_isVarint currentByte (isVarint_varint n) (length_varint_le 3 hn)

/-- The operand that a `char` is promoted to. -/
def promoted (byte : UInt8) : BitVec 32 := byte.toBitVec.signExtend 32

/-- The left shift of an `int`; `none` if its result, or the operand already, is no such value. -/
def shiftLeftInt (bits : BitVec 32) (count : Nat) : Option (BitVec 32) :=
  if bits.toNat * 2 ^ count < 2 ^ 31 then some (bits <<< count) else none

/-- The loop of `readVarintPrefix` with its `int` and `char` operands; `none` on an overflow. -/
def readVarintLoopInt (numBytes : Nat) (returnValue : BitVec 32) (currentByte : UInt8)
    (stream : List UInt8) : Option (Option Nat × List UInt8) :=
  if promoted currentByte &&& 0x80 = 0 then some (some returnValue.toNat, stream)
  else
    let received := recvByte 0 stream
    if 4 < numBytes + 1 then some (none, received.2)
    else
      (shiftLeftInt (promoted received.1 &&& 0x7f) (7 * numBytes)).bind fun bits =>
        readVarintLoopInt (numBytes + 1) (returnValue ||| bits) received.1 received.2
termination_by 4 - numBytes

def readVarintPrefixInt (currentByte : UInt8) (stream : List UInt8) : Option (Option Nat × List UInt8) :=
  let received := recvByte currentByte stream
  readVarintLoopInt 1 (promoted received.1 &&& 0x7f) received.1 received.2

theorem promoted_continues_iff (byte : UInt8) : promoted byte &&& 0x80 = 0 ↔ byte.toNat < 128 := by
  have hbits : ∀ i : Fin 256,
      (BitVec.signExtend 32 (BitVec.ofFin i : BitVec 8) &&& 0x80 = 0) ↔ i.val < 128 := by
    decide +kernel
  exact hbits byte.toFin

theorem toNat_promoted_payload (byte : UInt8) : (promoted byte &&& 0x7f).toNat = (byte &&& 0x7f).toNat := by
  have hbits : ∀ i : Fin 256,
      (BitVec.signExtend 32 (BitVec.ofFin i : BitVec 8) &&& 0x7f).toNat = i.val % 128 := by decide +kernel
  rw [toNat_payload]
  exact hbits byte.toFin

/-- Up to the third shift the payload stays far below the sign bit. -/
theorem shiftLeftInt_payload {numBytes : Nat} (hnum : numBytes < 4) (byte : UInt8) :
    ∃ bits, shiftLeftInt (promoted byte &&& 0x7f) (7 * numBytes) = some bits ∧
      bits.toNat = (byte &&& 0x7f).toNat <<< (7 * numBytes) := by
  have hpayload : (byte &&& 0x7f).toNat ≤ 127 := by
    rw [toNat_payload]
    omega
  have hpow : 2 ^ (7 * numBytes) ≤ 2 ^ 21 := Nat.pow_le_pow_right (by decide) (by omega)
  have hsmall : (byte &&& 0x7f).toNat * 2 ^ (7 * numBytes) < 2 ^ 31 :=
    Nat.lt_of_le_of_lt (Nat.mul_le_mul hpayload hpow) (by decide)
  refine ⟨(promoted byte &&& 0x7f) <<< (7 * numBytes), ?_, ?_⟩
  · rw [shiftLeftInt, toNat_promoted_payload, if_pos hsmall]
  · rw [BitVec.toNat_shiftLeft, toNat_promoted_payload, Nat.mod_eq_of_lt]
    rw [Nat.shiftLeft_eq]
    omega

theorem readVarintLoopInt_last {numBytes : Nat} (returnValue : BitVec 32) {currentByte : UInt8}
    (hlast : currentByte.toNat < 128) (stream : List UInt8) :
    readVarintLoopInt numBytes returnValue currentByte stream = some (some returnValue.toNat, stream) := by
  rw [readVarintLoopInt, if_pos ((promoted_continues_iff currentByte).mpr hlast)]

theorem readVarintLoopInt_overlong {numBytes : Nat} (hnum : 4 ≤ numBytes) (returnValue : BitVec 32)
    {currentByte : UInt8} (hcontinues : 128 ≤ currentByte.toNat) (stream : List UInt8) :
    readVarintLoopInt numBytes returnValue currentByte stream = some (none, (recvByte 0 stream).2) := by
  rw [readVarintLoopInt, if_neg (by rw [promoted_continues_iff]; omega), if_pos (by omega)]

/-- One more byte, without an overflow. -/
theorem readVarintLoopInt_more {numBytes : Nat} (hnum : numBytes < 4) (returnValue : BitVec 32)
    {currentByte : UInt8} (hcontinues : 128 ≤ currentByte.toNat) {byte : UInt8} {stream rest : List UInt8}
    (hreceived : recvByte 0 stream = (byte, rest)) :
    ∃ nextValue : BitVec 32,
      nextValue.toNat = returnValue.toNat ||| (byte &&& 0x7f).toNat <<< (7 * numBytes) ∧
      readVarintLoopInt numBytes returnValue currentByte stream =
        readVarintLoopInt (numBytes + 1) nextValue byte rest := by
  obtain ⟨bits, hshift, hbits⟩ := shiftLeftInt_payload hnum byte
  refine ⟨returnValue ||| bits, by rw [BitVec.toNat_or, hbits], ?_⟩
  rw [readVarintLoopInt, if_neg (by rw [promoted_continues_iff]; omega), if_neg (by omega), hreceived]
  simp only [hshift, Option.bind_some]

/-- The loop's own arithmetic is that of the natural numbers. -/
theorem readVarintLoopInt_eq {numBytes : Nat} (returnValue : BitVec 32) (currentByte : UInt8)
    (stream : List UInt8) :
    readVarintLoopInt numBytes returnValue currentByte stream =
      some (readVarintLoop numBytes returnValue.toNat currentByte stream) := by
  induction stream generalizing numBytes returnValue currentByte with
  | nil =>
      rcases Nat.lt_or_ge currentByte.toNat 128 with hlast | hcontinues
      · rw [readVarintLoopInt_last _ hlast, readVarintLoop_last _ hlast]
      · rw [readVarintLoop_nil _ hcontinues]
        rcases Nat.lt_or_ge numBytes 4 with hnum | hnum
        · have hended : (0 : UInt8).toNat < 128 := by decide
          have hreceived : recvByte 0 [] = (0, []) := rfl
          obtain ⟨nextValue, hnext, hloop⟩ := readVarintLoopInt_more hnum returnValue hcontinues hreceived
          -- the zero of an ended stream is a last byte that adds nothing
          have hzero : nextValue.toNat = returnValue.toNat := by simpa using hnext
          rw [hloop, readVarintLoopInt_last _ hended, hzero, if_neg (by omega)]
        · rw [readVarintLoopInt_overlong hnum _ hcontinues, recvByte, if_pos (by omega)]
  | cons byte stream ih =>
      rcases Nat.lt_or_ge currentByte.toNat 128 with hlast | hcontinues
      · rw [readVarintLoopInt_last _ hlast, readVarintLoop_last _ hlast]
      · rw [readVarintLoop_cons _ hcontinues]
        rcases Nat.lt_or_ge numBytes 4 with hnum | hnum
        · have hreceived : recvByte 0 (byte :: stream) = (byte, stream) := rfl
          obtain ⟨nextValue, hnext, hloop⟩ := readVarintLoopInt_more hnum returnValue hcontinues hreceived
          rw [hloop, ih, hnext, if_neg (by omega)]
        · rw [readVarintLoopInt_overlong hnum _ hcontinues, recvByte, if_pos (by omega)]

theorem readVarintPrefixInt_eq (currentByte : UInt8) (stream : List UInt8) :
    readVarintPrefixInt currentByte stream = some (readVarintPrefix currentByte stream) := by
  simp only [readVarintPrefixInt, readVarintLoopInt_eq, toNat_promoted_payload]
  rfl

/-! ### What the loop accepts -/

/-- Exactly the varints of at most four bytes, with their values, whatever memory holds; the standard
encoding of every number below 2^28 is among them, and nothing overflows. -/
theorem readVarintPrefix_accepts (currentByte : UInt8) :
    (∀ stream : List UInt8, 5 ≤ stream.length →
      if prefixLength stream ≤ 4 then
        readVarintPrefix currentByte stream =
          (some (prefixValue (stream.take (prefixLength stream))), stream.drop (prefixLength stream))
      else (readVarintPrefix currentByte stream).1 = none) ∧
    (∀ n < 2 ^ 28, Reads (readVarintPrefix currentByte) (varint n) (some n)) ∧
    ∀ stream : List UInt8,
      readVarintPrefixInt currentByte stream = some (readVarintPrefix currentByte stream) :=
  ⟨fun _ hlength => readVarintPrefix_of_prefixLength currentByte hlength,
    fun _ hn => reads_readVarintPrefix currentByte hn,
    fun stream => readVarintPrefixInt_eq currentByte stream⟩

/-- 300 in three bytes instead of two. -/
example : readVarintPrefix 0 [0xac, 0x82, 0x00, 7, 7] = (some 300, [7, 7]) := by decide

/-- A prefix that is cut off is refused only from the fourth byte on: the loop gives up by counting, it does
not notice the end of the stream. -/
theorem readVarintPrefix_truncated (currentByte : UInt8) {stream : List UInt8}
    (hmore : ∀ byte ∈ stream, 128 ≤ byte.toNat) :
    (readVarintPrefix currentByte stream).1 = none ↔ 4 ≤ stream.length := by
  constructor
  · intro hnone
    rcases announces_or_overlong currentByte stream with ⟨n, rest, h⟩ | hoverlong
    · rw [readVarintPrefix_of_announces h] at hnone
      cases hnone
    · exact hoverlong.1
  · intro hlength
    exact readVarintPrefix_of_overlong currentByte
      ⟨hlength, fun byte hbyte => hmore byte (List.mem_of_mem_take hbyte)⟩

/-- Four continuing bytes are refused. -/
theorem readVarintPrefix_truncated_four :
    (readVarintPrefix 0 [0x80, 0x80, 0x80, 0x80]).1 = none ↔ 4 ≤ [0x80, 0x80, 0x80, 0x80].length :=
  readVarintPrefix_truncated 0 (by simp)

/-- The peer sends the first byte of a longer prefix and closes the connection: a body of five bytes is
announced. -/
theorem readVarintPrefix_of_one_byte :
    (∀ byte ∈ [(0x85 : UInt8)], 128 ≤ byte.toNat) ∧ (readVarintPrefix 0 [0x85]).1 ≠ none :=
  ⟨by simp, by decide⟩

end ClientServerChannel

end OmnetppFederate
