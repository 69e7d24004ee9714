import Mathlib.Algebra.Group.Nat.Defs
import Mathlib.Data.List.Basic
import Mathlib.Data.Nat.Digits.Defs
import Mathlib.Tactic.Common

/-! Length-prefixed frames on a stream of bytes. A length is a base-128 varint: seven bits a byte, the
lowest first, every byte but the last with its high bit set. A reader takes what it needs off the stream
and leaves the rest; it reads some bytes exactly if it does so whatever follows them, which is what makes
readers compose. -/

namespace OmnetppFederate.Lib

/-- The bytes of a number, not necessarily the shortest ones. -/
inductive IsVarint : Nat → List UInt8 → Prop where
  | last {byte : UInt8} (hlast : byte.toNat < 128) : IsVarint byte.toNat [byte]
  | more {byte : UInt8} {n : Nat} {bytes : List UInt8} (hmore : 128 ≤ byte.toNat)
      (hrest : IsVarint n bytes) : IsVarint (byte.toNat - 128 + 128 * n) (byte :: bytes)

/-- The shortest bytes of a number. -/
def varint (n : Nat) : List UInt8 :=
  if n < 128 then [n.toUInt8] else (n % 128 + 128).toUInt8 :: varint (n / 128)
termination_by n
decreasing_by omega

theorem varint_of_lt {n : Nat} (h : n < 128) : varint n = [n.toUInt8] := by
  rw [varint, if_pos h]

theorem toNat_toUInt8_of_lt {n : Nat} (h : n < 256) : n.toUInt8.toNat = n := by
  simp [Nat.mod_eq_of_lt h]

theorem isVarint_varint (n : Nat) : IsVarint n (varint n) := by
  induction n using Nat.strongRecOn with
  | ind n ih =>
      rw [varint]
      split_ifs with hsmall
      · have hbyte : n.toUInt8.toNat = n := toNat_toUInt8_of_lt (by omega)
        have hlast : IsVarint n.toUInt8.toNat [n.toUInt8] := .last (by rw [hbyte]; exact hsmall)
        rwa [hbyte] at hlast
      · have hbyte : (n % 128 + 128).toUInt8.toNat = n % 128 + 128 := toNat_toUInt8_of_lt (by omega)
        have hmore : 128 ≤ (n % 128 + 128).toUInt8.toNat := by omega
        have hmore := IsVarint.more hmore (ih (n / 128) (by omega))
        rwa [hbyte, Nat.add_sub_cancel, Nat.mod_add_div] at hmore

theorem length_varint_le (k : Nat) {n : Nat} (h : n < 128 ^ (k + 1)) : (varint n).length ≤ k + 1 := by
  induction k generalizing n with
  | zero =>
      rw [varint_of_lt (by simpa using h)]
      simp
  | succ k ih =>
      rw [varint]
      split_ifs
      · simp
      · have hdiv : n / 128 < 128 ^ (k + 1) := Nat.div_lt_of_lt_mul (by rwa [Nat.pow_succ, Nat.mul_comm] at h)
        exact Nat.succ_le_succ (ih hdiv)

theorem IsVarint.ne_nil {n : Nat} {bytes : List UInt8} (h : IsVarint n bytes) : bytes ≠ [] := by
  cases h <;> simp

/-- The number is read off its bytes, seven bits each. -/
theorem IsVarint.eq_ofDigits {n : Nat} {bytes : List UInt8} (h : IsVarint n bytes) :
    n = Nat.ofDigits 128 (bytes.map fun byte => byte.toNat % 128) := by
  induction h with
  | last hlast => rw [List.map_singleton, Nat.ofDigits_singleton, Nat.mod_eq_of_lt hlast]
  | @more byte n bytes hmore hrest ih =>
      have hpayload : byte.toNat - 128 = byte.toNat % 128 := by
        have := byte.toNat_lt
        omega
      rw [List.map_cons, Nat.ofDigits_cons, ← ih, hpayload]

/-- Any continuing bytes and a last one are the bytes of some number. -/
theorem exists_isVarint {bytes : List UInt8} (hmore : ∀ byte ∈ bytes, 128 ≤ byte.toNat) {byte : UInt8}
    (hlast : byte.toNat < 128) : ∃ n, IsVarint n (bytes ++ [byte]) := by
  induction bytes with
  | nil => exact ⟨_, .last hlast⟩
  | cons first bytes ih =>
      obtain ⟨n, hn⟩ := ih fun byte hbyte => hmore byte (List.mem_cons_of_mem _ hbyte)
      exact ⟨_, .more (hmore first List.mem_cons_self) hn⟩

/-- Every stream is some continuing bytes, followed by a last one or by nothing. -/
theorem split_continuing (stream : List UInt8) :
    ∃ bytes rest, stream = bytes ++ rest ∧ (∀ byte ∈ bytes, 128 ≤ byte.toNat) ∧
      (rest = [] ∨ ∃ byte later, rest = byte :: later ∧ byte.toNat < 128) := by
  induction stream with
  | nil => exact ⟨[], [], rfl, by simp, .inl rfl⟩
  | cons first stream ih =>
      by_cases hfirst : first.toNat < 128
      · exact ⟨[], first :: stream, rfl, by simp, .inr ⟨first, stream, rfl, hfirst⟩⟩
      · obtain ⟨bytes, rest, rfl, hmore, hrest⟩ := ih
        refine ⟨first :: bytes, rest, rfl, fun byte hbyte => ?_, hrest⟩
        rcases List.mem_cons.mp hbyte with rfl | hbyte
        · omega
        · exact hmore byte hbyte

/-- A varint cut off before its last byte leaves only continuing bytes. -/
theorem IsVarint.all_more_of_append {n : Nat} {bytes bytes' : List UInt8} (h : IsVarint n (bytes ++ bytes'))
    (hcut : bytes' ≠ []) : ∀ byte ∈ bytes, 128 ≤ byte.toNat := by
  induction bytes generalizing n with
  | nil => exact fun byte hbyte => absurd hbyte List.not_mem_nil
  | cons first bytes ih =>
      intro byte hbyte
      generalize hall : first :: bytes ++ bytes' = all at h
      cases h with
      | last =>
          obtain ⟨-, hnil⟩ := List.cons.inj hall
          exact absurd (List.append_eq_nil_iff.mp hnil).2 hcut
      | more hmore hrest =>
          obtain ⟨rfl, rfl⟩ := List.cons.inj hall
          rcases List.mem_cons.mp hbyte with rfl | hbyte
          · exact hmore
          · exact ih hrest byte hbyte

/-- A body with its length in front. -/
def frame (body : List UInt8) : List UInt8 := varint body.length ++ body

/-! ### Readers -/

/-- What is read off a stream, and what is left of the stream. -/
abbrev Reader (α : Type*) := List UInt8 → α × List UInt8

/-- The reader takes exactly these bytes, whatever follows them. -/
def Reads {α : Type*} (read : Reader α) (bytes : List UInt8) (value : α) : Prop :=
  ∀ rest, read (bytes ++ rest) = (value, rest)

section Reads

variable {α β : Type*} {read : Reader α} {bytes more : List UInt8} {value : α}

theorem reads_pure (value : α) : Reads (fun stream => (value, stream)) [] value := fun _ => rfl

theorem Reads.map (h : Reads read bytes value) (f : α → β) :
    Reads (fun stream => ((f (read stream).1), (read stream).2)) bytes (f value) := by
  intro rest
  simp only [h rest]

/-- One reader after the other reads one piece after the other. -/
theorem Reads.bind (next : α → Reader β) {result : β} (h : Reads read bytes value)
    (hnext : Reads (next value) more result) :
    Reads (fun stream => next (read stream).1 (read stream).2) (bytes ++ more) result := by
  intro rest
  simp only [List.append_assoc, h (more ++ rest)]
  exact hnext rest

end Reads

end OmnetppFederate.Lib
