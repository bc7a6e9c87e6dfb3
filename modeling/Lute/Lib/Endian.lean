import Mathlib.Data.Nat.Digits.Lemmas

/-! Integers of a fixed number of bytes: byte orders, object representations and byte swapping. -/
namespace Endian

/-- The byte order of a machine. -/
inductive Order
  | little
  | big
  deriving DecidableEq, Repr

/-- The `w` bytes of `n`, least significant first. -/
def bytes (w n : Nat) : List UInt8 := (List.range w).map fun i => UInt8.ofNat (n / 256 ^ i)

/-- The number with the given bytes, least significant first. -/
def value (bs : List UInt8) : Nat := Nat.ofDigits 256 (bs.map UInt8.toNat)

/-- The object representation of an unsigned integer of `w` bytes. -/
def Order.store : Order → Nat → Nat → List UInt8
  | .little, w, n => bytes w n
  | .big, w, n => (bytes w n).reverse

/-- The unsigned integer with the given object representation. -/
def Order.load : Order → List UInt8 → Nat
  | .little, bs => value bs
  | .big, bs => value bs.reverse

def bswap (w n : Nat) : Nat := value (bytes w n).reverse

/-- `htobe16` and its siblings. -/
def Order.htobe : Order → Nat → Nat → Nat
  | .little, w, n => bswap w n
  | .big, _, n => n

/-- `be16toh` and its siblings. -/
def Order.betoh : Order → Nat → Nat → Nat
  | .little, w, n => bswap w n
  | .big, _, n => n

variable {w n : Nat} {bs : List UInt8}

@[simp] theorem length_bytes (w n : Nat) : (bytes w n).length = w := by
  simp [bytes]

theorem bytes_succ (w n : Nat) : bytes (w + 1) n = bytes w n ++ [UInt8.ofNat (n / 256 ^ w)] := by
  simp [bytes, List.range_succ]

theorem value_bytes (w n : Nat) : value (bytes w n) = n % 256 ^ w := by
  induction w with
  | zero => simp [bytes, value, Nat.mod_one]
  | succ w ih =>
    have hlast : (UInt8.ofNat (n / 256 ^ w)).toNat = n / 256 ^ w % 256 := by simp
    unfold value at ih ⊢
    rw [bytes_succ, List.map_append, Nat.ofDigits_append, ih, List.length_map, length_bytes,
      Nat.pow_succ, Nat.mod_mul]
    simp [hlast]

theorem digit_lt {d : Nat} (h : d ∈ bs.map UInt8.toNat) : d < 256 := by
  obtain ⟨b, -, rfl⟩ := List.mem_map.mp h
  exact b.toNat_lt

theorem value_lt (bs : List UInt8) : value bs < 256 ^ bs.length := by
  have h : value bs < 256 ^ (bs.map UInt8.toNat).length :=
    Nat.ofDigits_lt_base_pow_length (by decide) fun _ => digit_lt
  rwa [List.length_map] at h

/-- Bytes are determined by their number and their value. -/
theorem bytes_value (bs : List UInt8) : bytes bs.length (value bs) = bs := by
  have hval : value (bytes bs.length (value bs)) = value bs := by
    rw [value_bytes, Nat.mod_eq_of_lt (value_lt bs)]
  have hmap := Nat.ofDigits_inj_of_len_eq (by decide) (by simp) (fun _ => digit_lt)
    (fun _ => digit_lt) hval
  exact List.map_injective_iff.mpr (fun _ _ => UInt8.toNat_inj.mp) hmap

/-- On either machine the swapped integer lies in memory most significant byte first. -/
theorem store_htobe (host : Order) (w n : Nat) :
    host.store w (host.htobe w n) = (bytes w n).reverse := by
  cases host with
  | little =>
    have h := bytes_value (bytes w n).reverse
    rwa [List.length_reverse, length_bytes] at h
  | big => rfl

theorem betoh_load (host : Order) (bs : List UInt8) :
    host.betoh bs.length (host.load bs) = value bs.reverse := by
  cases host with
  | little => rw [Order.betoh, Order.load, bswap, bytes_value]
  | big => rfl

/-- An integer type of `width` bytes: the bits of its values as an unsigned number, and the
numbers they stand for, related by two's complement. -/
class FixedWidth (α : Type) where
  width : Nat
  bits : α → Nat
  ofBits : Nat → α
  toInt : α → Int
  ofBits_bits : ∀ x, ofBits (bits x) = x
  bits_ofBits : ∀ n, n < 256 ^ width → bits (ofBits n) = n
  bits_eq : ∀ x, (bits x : Int) = toInt x % 256 ^ width

/-- The two's-complement encoding of an integer in `w` bytes, most significant first. -/
def network (w : Nat) (z : Int) : List UInt8 := (bytes w (z % 256 ^ w).toNat).reverse

section FixedWidth

variable {α : Type} [FixedWidth α]

open FixedWidth

theorem bits_lt (x : α) : bits x < 256 ^ width α := by
  have h := bits_eq x
  have hpos : (0 : Int) < 256 ^ width α := by positivity
  have hlt := Int.emod_lt_of_pos (toInt x) hpos
  rw [← h] at hlt
  exact_mod_cast hlt

theorem network_toInt (x : α) :
    network (width α) (toInt x) = (bytes (width α) (bits x)).reverse := by
  rw [network, ← bits_eq, Int.toNat_natCast]

/-- What is stored in network order is read back. -/
theorem ofBits_network (x : α) :
    ofBits (value (network (width α) (toInt x)).reverse) = x := by
  rw [network_toInt, List.reverse_reverse, value_bytes, Nat.mod_eq_of_lt (bits_lt x), ofBits_bits]

/-- What is read in network order is stored back. -/
theorem network_ofBits (h : bs.length = width α) :
    network (width α) (toInt (ofBits (value bs.reverse) : α)) = bs := by
  have hlt : value bs.reverse < 256 ^ width α := by
    have := value_lt bs.reverse
    rwa [List.length_reverse, h] at this
  have hb := bytes_value bs.reverse
  rw [List.length_reverse, h] at hb
  rw [network_toInt, bits_ofBits _ hlt, hb, List.reverse_reverse]

end FixedWidth

theorem bitVec_bits {w : Nat} (x : BitVec w) : (x.toNat : Int) = x.toInt % 2 ^ w := by
  have hpow : (2 : Int) ^ w = (2 ^ w : Nat) := by simp
  rw [BitVec.toInt_eq_toNat_bmod, hpow, Int.bmod_emod]
  exact (Int.emod_eq_of_lt (Int.natCast_nonneg _) (by exact_mod_cast x.isLt)).symm

instance : FixedWidth UInt8 where
  width := 1
  bits := UInt8.toNat
  ofBits := UInt8.ofNat
  toInt x := x.toNat
  ofBits_bits _ := UInt8.ofNat_toNat
  bits_ofBits _ h := UInt8.toNat_ofNat_of_lt h
  bits_eq x := (Int.emod_eq_of_lt (Int.natCast_nonneg _) (by exact_mod_cast x.toNat_lt)).symm

instance : FixedWidth Int8 where
  width := 1
  bits x := x.toUInt8.toNat
  ofBits n := (UInt8.ofNat n).toInt8
  toInt := Int8.toInt
  ofBits_bits x := by simp
  bits_ofBits _ h := UInt8.toNat_ofNat_of_lt h
  bits_eq x := bitVec_bits x.toBitVec

instance : FixedWidth UInt16 where
  width := 2
  bits := UInt16.toNat
  ofBits := UInt16.ofNat
  toInt x := x.toNat
  ofBits_bits _ := UInt16.ofNat_toNat
  bits_ofBits _ h := UInt16.toNat_ofNat_of_lt h
  bits_eq x := (Int.emod_eq_of_lt (Int.natCast_nonneg _) (by exact_mod_cast x.toNat_lt)).symm

instance : FixedWidth Int16 where
  width := 2
  bits x := x.toUInt16.toNat
  ofBits n := (UInt16.ofNat n).toInt16
  toInt := Int16.toInt
  ofBits_bits x := by simp
  bits_ofBits _ h := UInt16.toNat_ofNat_of_lt h
  bits_eq x := bitVec_bits x.toBitVec

instance : FixedWidth UInt32 where
  width := 4
  bits := UInt32.toNat
  ofBits := UInt32.ofNat
  toInt x := x.toNat
  ofBits_bits _ := UInt32.ofNat_toNat
  bits_ofBits _ h := UInt32.toNat_ofNat_of_lt h
  bits_eq x := (Int.emod_eq_of_lt (Int.natCast_nonneg _) (by exact_mod_cast x.toNat_lt)).symm

instance : FixedWidth Int32 where
  width := 4
  bits x := x.toUInt32.toNat
  ofBits n := (UInt32.ofNat n).toInt32
  toInt := Int32.toInt
  ofBits_bits x := by simp
  bits_ofBits _ h := UInt32.toNat_ofNat_of_lt h
  bits_eq x := bitVec_bits x.toBitVec

instance : FixedWidth UInt64 where
  width := 8
  bits := UInt64.toNat
  ofBits := UInt64.ofNat
  toInt x := x.toNat
  ofBits_bits _ := UInt64.ofNat_toNat
  bits_ofBits _ h := UInt64.toNat_ofNat_of_lt h
  bits_eq x := (Int.emod_eq_of_lt (Int.natCast_nonneg _) (by exact_mod_cast x.toNat_lt)).symm

instance : FixedWidth Int64 where
  width := 8
  bits x := x.toUInt64.toNat
  ofBits n := (UInt64.ofNat n).toInt64
  toInt := Int64.toInt
  ofBits_bits x := by simp
  bits_ofBits _ h := UInt64.toNat_ofNat_of_lt h
  bits_eq x := bitVec_bits x.toBitVec

end Endian
