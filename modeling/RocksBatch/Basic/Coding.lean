import Mathlib.Data.List.Basic
import Mathlib.Tactic.Ring

set_option autoImplicit false

/-! # Byte strings, fixed-width integers and varints

The write batch is a `std::string` of bytes; here a byte string is a `List UInt8`. The
codec the batch is written in lives in `util/coding.h`, which is not part of the sources,
so every function of this file is modelled from §4.1 of the spec:

* `EncodeFixed32/64`, `DecodeFixed32/64`: little-endian, four or eight bytes;
* `PutVarint32`, `GetVarint32`: base-128 little-endian, seven bits a byte, the high bit set
  on every byte but the last; the reader gives up after five bytes;
* `PutLengthPrefixedSlice`, `GetLengthPrefixedSlice`: a varint32 length, then the bytes.

The length written by `PutLengthPrefixedSlice` is a `uint32_t`, so a slice of `2^32` bytes
or more gets its length modulo `2^32`. The round-trip lemmas at the end of the file are the
facts every decoder of the batch is built on: a reader given an encoding followed by any
rest returns the encoded value and exactly that rest.
-/

namespace RocksBatch

/-- A byte string (`std::string`, `Slice`). -/
abbrev Bytes := List UInt8

/-! ## Conversions -/

theorem UInt8.toNat_lt_256 (b : UInt8) : b.toNat < 256 := b.toNat_lt_size

theorem UInt32.toNat_lt_two_pow (v : UInt32) : v.toNat < 2 ^ 32 := v.toNat_lt_size

theorem UInt64.toNat_lt_two_pow (v : UInt64) : v.toNat < 2 ^ 64 := v.toNat_lt_size

@[simp] theorem toNat_toUInt8 (n : Nat) : n.toUInt8.toNat = n % 256 := by
  simp [Nat.toUInt8, UInt8.toNat, UInt8.ofNat]

@[simp] theorem toNat_toUInt32 (n : Nat) : n.toUInt32.toNat = n % 2 ^ 32 := by
  simp [Nat.toUInt32, UInt32.toNat, UInt32.ofNat]

theorem toNat_toUInt32_of_lt {n : Nat} (h : n < 2 ^ 32) : n.toUInt32.toNat = n := by
  rw [toNat_toUInt32, Nat.mod_eq_of_lt h]

@[simp] theorem toUInt32_toNat (v : UInt32) : v.toNat.toUInt32 = v :=
  UInt32.toNat.inj (toNat_toUInt32_of_lt (UInt32.toNat_lt_two_pow v))

theorem UInt32.toNat_add (a b : UInt32) : (a + b).toNat = (a.toNat + b.toNat) % 2 ^ 32 := by
  simp [UInt32.toNat, UInt32.add_def, BitVec.toNat_add]

theorem UInt32.toNat_add_one (v : UInt32) : (v + 1).toNat = (v.toNat + 1) % 2 ^ 32 :=
  UInt32.toNat_add v 1

theorem toUInt32_add (m n : Nat) : (m + n).toUInt32 = m.toUInt32 + n.toUInt32 := by
  apply UInt32.toNat.inj
  rw [toNat_toUInt32, UInt32.toNat_add, toNat_toUInt32, toNat_toUInt32]
  omega

theorem toUInt32_add_one (n : Nat) : (n + 1).toUInt32 = n.toUInt32 + 1 := by
  apply UInt32.toNat.inj
  rw [toNat_toUInt32, UInt32.toNat_add_one, toNat_toUInt32]
  omega

@[simp] theorem toNat_toUInt64 (n : Nat) : n.toUInt64.toNat = n % 2 ^ 64 := by
  simp [Nat.toUInt64, UInt64.toNat, UInt64.ofNat]

@[simp] theorem toUInt64_toNat (v : UInt64) : v.toNat.toUInt64 = v :=
  UInt64.toNat.inj (by rw [toNat_toUInt64, Nat.mod_eq_of_lt (UInt64.toNat_lt_two_pow v)])

@[simp] theorem toUInt64_zero : (0 : Nat).toUInt64 = 0 := rfl

@[simp] theorem toUInt64_one : (1 : Nat).toUInt64 = 1 := rfl

theorem UInt64.toNat_add (a b : UInt64) : (a + b).toNat = (a.toNat + b.toNat) % 2 ^ 64 := by
  simp [UInt64.toNat, UInt64.add_def, BitVec.toNat_add]

theorem toUInt64_add (m n : Nat) : (m + n).toUInt64 = m.toUInt64 + n.toUInt64 := by
  apply UInt64.toNat.inj
  rw [toNat_toUInt64, UInt64.toNat_add, toNat_toUInt64, toNat_toUInt64]
  omega


/-! ## Fixed-width little-endian integers -/

/-- The `k` low bytes of `v`, least significant first. -/
def encodeFixed : Nat → Nat → Bytes
  | 0, _ => []
  | k + 1, v => (v % 256).toUInt8 :: encodeFixed k (v / 256)

/-- The number a little-endian byte string stands for. -/
def decodeFixed : Bytes → Nat
  | [] => 0
  | b :: bs => b.toNat + 256 * decodeFixed bs

/-- `EncodeFixed32`. -/
def encodeFixed32 (value : UInt32) : Bytes := encodeFixed 4 value.toNat

/-- `EncodeFixed64`. -/
def encodeFixed64 (value : UInt64) : Bytes := encodeFixed 8 value.toNat

/-- `DecodeFixed32`: the first four bytes at `ptr`. -/
def decodeFixed32 (ptr : Bytes) : UInt32 := (decodeFixed (ptr.take 4)).toUInt32

/-- `DecodeFixed64`: the first eight bytes at `ptr`. -/
def decodeFixed64 (ptr : Bytes) : UInt64 := (decodeFixed (ptr.take 8)).toUInt64

@[simp] theorem length_encodeFixed (k v : Nat) : (encodeFixed k v).length = k := by
  induction k generalizing v with
  | zero => rfl
  | succ k ih => simp [encodeFixed, ih]

theorem decodeFixed_encodeFixed (k v : Nat) : decodeFixed (encodeFixed k v) = v % 256 ^ k := by
  induction k generalizing v with
  | zero => simp [encodeFixed, decodeFixed, Nat.mod_one]
  | succ k ih =>
      simp only [encodeFixed, decodeFixed, toNat_toUInt8, Nat.mod_mod, ih]
      rw [pow_succ', Nat.mod_mul]

@[simp] theorem length_encodeFixed32 (v : UInt32) : (encodeFixed32 v).length = 4 := by
  simp [encodeFixed32]

@[simp] theorem length_encodeFixed64 (v : UInt64) : (encodeFixed64 v).length = 8 := by
  simp [encodeFixed64]

@[simp] theorem decodeFixed32_encodeFixed32 (v : UInt32) (rest : Bytes) :
    decodeFixed32 (encodeFixed32 v ++ rest) = v := by
  have h : v.toNat < 256 ^ 4 := v.toNat_lt_size
  rw [decodeFixed32, encodeFixed32, List.take_left' (length_encodeFixed 4 v.toNat),
    decodeFixed_encodeFixed, Nat.mod_eq_of_lt h, toUInt32_toNat]

@[simp] theorem decodeFixed64_encodeFixed64 (v : UInt64) (rest : Bytes) :
    decodeFixed64 (encodeFixed64 v ++ rest) = v := by
  have h : v.toNat < 256 ^ 8 := v.toNat_lt_size
  rw [decodeFixed64, encodeFixed64, List.take_left' (length_encodeFixed 8 v.toNat),
    decodeFixed_encodeFixed, Nat.mod_eq_of_lt h, toUInt64_toNat]

/-! ## Varints -/

/-- The base-128 digits of `v`, least significant first, at most `k` of them; every byte but
the last has its high bit set. For a `uint32_t` five digits always suffice (`2^32 ≤ 128^5`),
which is why `EncodeVarint32` unrolls into five cases. -/
def varintDigits : Nat → Nat → Bytes
  | 0, _ => []
  | k + 1, v => if v < 128 then [v.toUInt8] else (v % 128 + 128).toUInt8 :: varintDigits k (v / 128)

/-- The value of a varint of at most `k` bytes at the front of `input`, and the input after
it; `none` when the input ends first or the `k`-th byte still has its high bit set. -/
def varintValue : Nat → Bytes → Option (Nat × Bytes)
  | 0, _ => none
  | _ + 1, [] => none
  | k + 1, b :: rest =>
      if b.toNat < 128 then some (b.toNat, rest)
      else (varintValue k rest).map fun p => (b.toNat % 128 + 128 * p.1, p.2)

/-- `EncodeVarint32`. -/
def encodeVarint32 (v : UInt32) : Bytes := varintDigits 5 v.toNat

/-- `PutVarint32`: append the varint of `v` to `dst`. -/
def putVarint32 (dst : Bytes) (v : UInt32) : Bytes := dst ++ encodeVarint32 v

/-- `GetVarint32`: read a varint32 from the front of `input`, returning it and the input
after it. The seven-bit groups occupy disjoint bits, so the `|=` of the source is a sum;
the `uint32_t` result keeps it modulo `2^32`. -/
def getVarint32 (input : Bytes) : Option (UInt32 × Bytes) :=
  (varintValue 5 input).map fun p => (p.1.toUInt32, p.2)

theorem varintValue_varintDigits (k v : Nat) (rest : Bytes) (hv : v < 128 ^ (k + 1)) :
    varintValue (k + 1) (varintDigits (k + 1) v ++ rest) = some (v, rest) := by
  induction k generalizing v with
  | zero =>
      have h : v < 128 := by simpa using hv
      simp [varintDigits, varintValue, h, Nat.mod_eq_of_lt (by omega : v < 256)]
  | succ k ih =>
      by_cases h : v < 128
      · simp [varintDigits, varintValue, h, Nat.mod_eq_of_lt (by omega : v < 256)]
      · have hlt : v / 128 < 128 ^ (k + 1) :=
          Nat.div_lt_of_lt_mul (by rw [← pow_succ']; exact hv)
        have hbyte : (v % 128 + 128).toUInt8.toNat = v % 128 + 128 := by
          rw [toNat_toUInt8, Nat.mod_eq_of_lt (by omega)]
        rw [varintDigits, if_neg h, List.cons_append, varintValue, hbyte,
          if_neg (by omega), ih _ hlt]
        simp only [Option.map_some', Option.some.injEq, Prod.mk.injEq, and_true]
        omega

theorem varintValue_length_lt {k : Nat} {input rest : Bytes} {v : Nat}
    (h : varintValue k input = some (v, rest)) : rest.length < input.length := by
  induction k generalizing input v with
  | zero => simp [varintValue] at h
  | succ k ih =>
      match input, h with
      | b :: tail, h =>
          simp only [varintValue] at h
          split at h
          · cases h; simp
          · obtain ⟨⟨v', rest'⟩, hv, he⟩ := Option.map_eq_some'.mp h
            simp only [Prod.mk.injEq] at he
            obtain ⟨-, rfl⟩ := he
            have := ih hv
            simp only [List.length_cons]
            omega

@[simp] theorem getVarint32_encodeVarint32 (v : UInt32) (rest : Bytes) :
    getVarint32 (encodeVarint32 v ++ rest) = some (v, rest) := by
  have hv : v.toNat < 128 ^ 5 := lt_of_lt_of_le (UInt32.toNat_lt_two_pow v) (by decide)
  simp [getVarint32, encodeVarint32, varintValue_varintDigits 4 v.toNat rest hv]

theorem getVarint32_length_lt {input rest : Bytes} {v : UInt32}
    (h : getVarint32 input = some (v, rest)) : rest.length < input.length := by
  obtain ⟨⟨v', rest'⟩, hv, he⟩ := Option.map_eq_some'.mp h
  simp only [Prod.mk.injEq] at he
  obtain ⟨-, rfl⟩ := he
  exact varintValue_length_lt hv

/-! ## Length-prefixed slices -/

/-- `PutLengthPrefixedSlice`: the length of `value` as a varint32, then `value`. -/
def putLengthPrefixedSlice (dst value : Bytes) : Bytes :=
  putVarint32 dst value.length.toUInt32 ++ value

/-- `PutLengthPrefixedSliceParts`: the total length of the parts as a varint32, then the
parts one after another. -/
def putLengthPrefixedSliceParts (dst : Bytes) (parts : List Bytes) : Bytes :=
  putVarint32 dst (parts.map List.length).sum.toUInt32 ++ parts.flatten

/-- `GetLengthPrefixedSlice`: a varint32 length and that many bytes, and the input after
them. -/
def getLengthPrefixedSlice (input : Bytes) : Option (Bytes × Bytes) :=
  match getVarint32 input with
  | some (len, rest) =>
      if len.toNat ≤ rest.length then some (rest.take len.toNat, rest.drop len.toNat) else none
  | none => none

/-- The bytes `PutLengthPrefixedSlice` appends. -/
def lengthPrefixed (value : Bytes) : Bytes := encodeVarint32 value.length.toUInt32 ++ value

theorem putLengthPrefixedSlice_eq (dst value : Bytes) :
    putLengthPrefixedSlice dst value = dst ++ lengthPrefixed value := by
  simp [putLengthPrefixedSlice, putVarint32, lengthPrefixed]

theorem putLengthPrefixedSliceParts_eq (dst : Bytes) (parts : List Bytes) :
    putLengthPrefixedSliceParts dst parts = dst ++ lengthPrefixed parts.flatten := by
  simp [putLengthPrefixedSliceParts, putVarint32, lengthPrefixed, List.length_flatten]

theorem getLengthPrefixedSlice_lengthPrefixed (value rest : Bytes) (h : value.length < 2 ^ 32) :
    getLengthPrefixedSlice (lengthPrefixed value ++ rest) = some (value, rest) := by
  simp [getLengthPrefixedSlice, lengthPrefixed, toNat_toUInt32_of_lt h]

/-- A slice read after its varint32 length is shorter than `2^32` bytes. -/
theorem getLengthPrefixedSlice_small {input s rest : Bytes}
    (h : getLengthPrefixedSlice input = some (s, rest)) : s.length < 2 ^ 32 := by
  unfold getLengthPrefixedSlice at h
  split at h
  · rename_i len tail _
    split at h
    · cases h
      exact lt_of_le_of_lt (List.length_take_le _ _) (UInt32.toNat_lt_two_pow len)
    · cases h
  · cases h

theorem getLengthPrefixedSlice_length_lt {input s rest : Bytes}
    (h : getLengthPrefixedSlice input = some (s, rest)) : rest.length < input.length := by
  unfold getLengthPrefixedSlice at h
  split at h
  · rename_i len tail hget
    split at h
    · cases h
      have := getVarint32_length_lt hget
      simp only [List.length_drop]
      omega
    · cases h
  · cases h

/-! ## Readers consume a prefix

What a reader reads from `input` it reads the same from any extension of `input`, leaving
the extension behind: a batch is read record by record, and a record never looks past its
own bytes. -/

theorem varintValue_append {k : Nat} {input rest : Bytes} {v : Nat}
    (h : varintValue k input = some (v, rest)) (q : Bytes) :
    varintValue k (input ++ q) = some (v, rest ++ q) := by
  induction k generalizing input v with
  | zero => simp [varintValue] at h
  | succ k ih =>
      match input, h with
      | b :: tail, h =>
          simp only [varintValue] at h
          simp only [List.cons_append, varintValue]
          split at h
          · cases h; simp [*]
          · obtain ⟨⟨v', rest'⟩, hv, he⟩ := Option.map_eq_some'.mp h
            simp only [Prod.mk.injEq] at he
            obtain ⟨rfl, rfl⟩ := he
            simp [*, ih hv]

theorem getVarint32_append {input rest : Bytes} {v : UInt32}
    (h : getVarint32 input = some (v, rest)) (q : Bytes) :
    getVarint32 (input ++ q) = some (v, rest ++ q) := by
  obtain ⟨⟨v', rest'⟩, hv, he⟩ := Option.map_eq_some'.mp h
  simp only [Prod.mk.injEq] at he
  obtain ⟨rfl, rfl⟩ := he
  simp [getVarint32, varintValue_append hv q]

theorem getLengthPrefixedSlice_append {input s rest : Bytes}
    (h : getLengthPrefixedSlice input = some (s, rest)) (q : Bytes) :
    getLengthPrefixedSlice (input ++ q) = some (s, rest ++ q) := by
  unfold getLengthPrefixedSlice at h ⊢
  split at h
  · rename_i len tail hget
    rw [getVarint32_append hget q]
    split at h
    · cases h
      simp [*, List.take_append_of_le_length, List.drop_append_of_le_length]
      omega
    · cases h
  · cases h

end RocksBatch
