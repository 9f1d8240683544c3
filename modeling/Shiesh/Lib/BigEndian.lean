import Mathlib.Data.List.Induction
import Mathlib.Tactic.Ring

/-!
# Big-Endian Numbers

Numbers as byte lists, most significant byte first, in a fixed number of bytes.
-/

namespace Shiesh.Lib

variable (bs : List UInt8)

/-- The number that a byte list spells in base 256. -/
def beNat (bs : List UInt8) : Nat := bs.foldl (fun n b => 256 * n + b.toNat) 0

/-- The last `w` base-256 digits of `n`. -/
def beBytes : Nat → Nat → List UInt8
  | 0, _ => []
  | w + 1, n => beBytes w (n / 256) ++ [UInt8.ofNat n]

@[simp] theorem beBytes_length (w n : Nat) : (beBytes w n).length = w := by
  induction w generalizing n with
  | zero => rfl
  | succ w ih => simp [beBytes, ih]

theorem beNat_append_singleton (b : UInt8) :
    beNat (bs ++ [b]) = 256 * beNat bs + b.toNat := by
  simp [beNat, List.foldl_append]

theorem beNat_beBytes (w n : Nat) : beNat (beBytes w n) = n % 256 ^ w := by
  induction w generalizing n with
  | zero => simp [beBytes, beNat, Nat.mod_one]
  | succ w ih =>
    have hmod : n % 256 ^ (w + 1) = n % 256 + 256 * (n / 256 % 256 ^ w) := by
      rw [Nat.pow_succ, mul_comm, Nat.mod_mul]
    rw [beBytes, beNat_append_singleton, ih, hmod, UInt8.toNat_ofNat']
    omega

theorem beBytes_beNat : beBytes bs.length (beNat bs) = bs := by
  induction bs using List.reverseRecOn with
  | nil => rfl
  | append_singleton bs b ih =>
    have hb : b.toNat < 256 := b.toNat_lt
    have hhigh : (256 * beNat bs + b.toNat) / 256 = beNat bs := by omega
    have hlow : UInt8.ofNat (256 * beNat bs + b.toNat) = b := by
      apply UInt8.toNat_inj.mp
      rw [UInt8.toNat_ofNat']
      omega
    rw [List.length_append, List.length_singleton, beBytes, beNat_append_singleton, hhigh, ih, hlow]

theorem beNat_lt : beNat bs < 256 ^ bs.length := by
  have hmod := beNat_beBytes bs.length (beNat bs)
  rw [beBytes_beNat] at hmod
  rw [hmod]
  exact Nat.mod_lt _ (Nat.pow_pos (by decide))

theorem beNat_cons (c : UInt8) (bs : List UInt8) :
    beNat (c :: bs) = c.toNat * 256 ^ bs.length + beNat bs := by
  induction bs using List.reverseRecOn with
  | nil => simp [beNat]
  | append_singleton bs b ih =>
    rw [← List.cons_append, beNat_append_singleton, beNat_append_singleton, ih, List.length_append,
      List.length_singleton, Nat.pow_succ]
    ring

end Shiesh.Lib
