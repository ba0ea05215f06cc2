import Mathlib.Data.List.Basic
import Mathlib.Tactic

/-! Natural numbers as big-endian byte strings. -/

namespace Sponge.BigEndian

def decode (bytes : List UInt8) : Nat :=
  bytes.foldl (fun value byte => value * 256 + byte.toNat) 0

def encode : (len value : Nat) → List UInt8
  | 0, _ => []
  | len + 1, value => UInt8.ofNat (value / 256 ^ len) :: encode len value

@[simp] theorem length_encode (len value : Nat) : (encode len value).length = len := by
  induction len with
  | zero => rfl
  | succ len induction => simp [encode, induction]

theorem foldl_decode (bytes : List UInt8) (start : Nat) :
    bytes.foldl (fun value byte => value * 256 + byte.toNat) start =
      start * 256 ^ bytes.length + decode bytes := by
  induction bytes generalizing start with
  | nil => simp [decode]
  | cons byte rest induction =>
      simp only [decode, List.foldl_cons, List.length_cons]
      rw [induction, induction (0 * 256 + byte.toNat)]
      ring

theorem decode_cons (byte : UInt8) (rest : List UInt8) :
    decode (byte :: rest) = byte.toNat * 256 ^ rest.length + decode rest := by
  have shifted := foldl_decode rest (0 * 256 + byte.toNat)
  rw [Nat.zero_mul, Nat.zero_add] at shifted
  rw [← shifted, decode, List.foldl_cons, Nat.zero_mul, Nat.zero_add]

theorem decode_encode (len value : Nat) :
    decode (encode len value) = value % 256 ^ len := by
  induction len with
  | zero => simp [encode, decode, Nat.mod_one]
  | succ len induction =>
      have digits : value % 256 ^ (len + 1) =
          value % 256 ^ len + 256 ^ len * (value / 256 ^ len % 256) := by
        rw [Nat.pow_succ]
        exact Nat.mod_mul
      rw [encode, decode_cons, induction, length_encode, UInt8.toNat_ofNat', digits]
      ring

theorem decode_lt (bytes : List UInt8) : decode bytes < 256 ^ bytes.length := by
  induction bytes with
  | nil => decide
  | cons byte rest induction =>
      have bound : byte.toNat < 256 := byte.toNat_lt
      have room : (byte.toNat + 1) * 256 ^ rest.length ≤ 256 * 256 ^ rest.length :=
        Nat.mul_le_mul_right _ bound
      rw [decode_cons, List.length_cons, Nat.pow_succ]
      linarith

/-- Digits above the last `len` are not written. -/
theorem encode_add_mul (len value extra : Nat) :
    encode len (extra * 256 ^ len + value) = encode len value := by
  induction len generalizing extra with
  | zero => rfl
  | succ len induction =>
      have shift : extra * 256 ^ (len + 1) + value = extra * 256 * 256 ^ len + value := by
        ring
      rw [shift, encode, encode, induction, Nat.add_comm,
        Nat.add_mul_div_right _ _ (Nat.pow_pos (by decide))]
      congr 1
      apply UInt8.toNat_inj.mp
      simp

theorem encode_decode (bytes : List UInt8) :
    encode bytes.length (decode bytes) = bytes := by
  induction bytes with
  | nil => rfl
  | cons byte rest induction =>
      have digit : (byte.toNat * 256 ^ rest.length + decode rest) / 256 ^ rest.length =
          byte.toNat := by
        rw [Nat.add_comm, Nat.add_mul_div_right _ _ (Nat.pow_pos (by decide)),
          Nat.div_eq_of_lt (decode_lt rest), Nat.zero_add]
      rw [decode_cons, List.length_cons, encode, digit, encode_add_mul, induction,
        UInt8.ofNat_toNat]

end Sponge.BigEndian
