import Mathlib.Data.Nat.Digits.Defs

/-! Numbers of a fixed number of bytes in memory, the least significant byte first, and the exchange
of byte orders. -/

namespace NetbsdDpdk

def valueOf (bs : List UInt8) : Nat := Nat.ofDigits 256 (bs.map UInt8.toNat)

def bytesOf (w v : Nat) : List UInt8 := (List.range w).map fun i => UInt8.ofNat (v / 256 ^ i)

def bswap (w v : Nat) : Nat := valueOf (bytesOf w v).reverse

@[simp] theorem valueOf_nil : valueOf [] = 0 := rfl

theorem valueOf_cons (b : UInt8) (bs : List UInt8) :
    valueOf (b :: bs) = b.toNat + 256 * valueOf bs := by
  simp [valueOf, Nat.ofDigits_cons]

@[simp] theorem length_bytesOf (w v : Nat) : (bytesOf w v).length = w := by simp [bytesOf]

theorem bytesOf_succ (w v : Nat) : bytesOf (w + 1) v = UInt8.ofNat v :: bytesOf w (v / 256) := by
  simp [bytesOf, List.range_succ_eq_map, Nat.pow_succ', Nat.div_div_eq_div_mul, Function.comp_def]

theorem valueOf_bytesOf (w v : Nat) : valueOf (bytesOf w v) = v % 256 ^ w := by
  induction w generalizing v with
  | zero => simp [bytesOf, Nat.mod_one]
  | succ w ih =>
    have hbyte : (UInt8.ofNat v).toNat = v % 256 := UInt8.toNat_ofNat'
    rw [bytesOf_succ, valueOf_cons, ih, hbyte, Nat.pow_succ', Nat.mod_mul]

theorem bytesOf_valueOf (bs : List UInt8) : bytesOf bs.length (valueOf bs) = bs := by
  induction bs with
  | nil => rfl
  | cons b bs ih =>
    have hb := b.toNat_lt
    have hdiv : valueOf (b :: bs) / 256 = valueOf bs := by
      rw [valueOf_cons]
      omega
    have hlow : UInt8.ofNat (valueOf (b :: bs)) = b := by
      apply UInt8.toNat_inj.mp
      rw [UInt8.toNat_ofNat', valueOf_cons]
      omega
    rw [List.length_cons, bytesOf_succ, hdiv, hlow, ih]

theorem bytesOf_bswap (w v : Nat) : bytesOf w (bswap w v) = (bytesOf w v).reverse := by
  have hbytes := bytesOf_valueOf (bytesOf w v).reverse
  rwa [List.length_reverse, length_bytesOf] at hbytes

theorem bswap_bswap (w v : Nat) : bswap w (bswap w v) = v % 256 ^ w := by
  rw [bswap, bytesOf_bswap, List.reverse_reverse, valueOf_bytesOf]

end NetbsdDpdk
