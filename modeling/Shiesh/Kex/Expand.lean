import Shiesh.Kex.Derive

/-!
# Key Expansion

`derive_key` with the memory it writes to: `roundup (need, mdsz)` bytes, computed in `u_int`. Every
key is the beginning of one and the same stream `K1 || K2 || ...`, and the last block ends inside
the allocation, unless the sum in `roundup` wraps around; then `xmalloc` is asked for nothing.
-/

namespace Shiesh.Kex

open Shiesh.Lib Shiesh.Transport

variable (D : Digests) (bugs : Bugs)

inductive KeyFault where
  | halt (h : Halt)
  -- `EVP_DigestFinal` writes behind the allocation
  | overflow
  deriving DecidableEq

/-- `EVP_DigestFinal (&md, digest + have, NULL)` -/
def digestFinal (alloc : Nat) (digest block : Bytes) : Except KeyFault Bytes :=
  if digest.length + block.length ≤ alloc then .ok (digest ++ block) else .error .overflow

def expandIn (md : EvpMd) (start : Bytes) (alloc need : Nat) : Nat → Bytes → Except KeyFault Bytes
  | 0, digest => .ok digest
  | fuel + 1, digest =>
    if need > digest.length then do
      expandIn md start alloc need fuel (← digestFinal alloc digest (D.hash md (start ++ digest)))
    else
      .ok digest

/-- `roundup (need, mdsz)` -/
def digestAlloc (need : UInt32) (mdsz : Nat) : Nat :=
  (need.toNat + (mdsz - 1)) % 2 ^ 32 / mdsz * mdsz

def deriveKeyIn (evpMd : EvpMd) (sessionId : Bytes) (id : UInt8) (need : UInt32) (hash : Bytes)
    (sharedSecret : Nat) : Except KeyFault Bytes :=
  let mdsz := D.size evpMd
  if mdsz = 0 then
    .error (.halt (.fatal "bad kex md size %d" [.num mdsz]))
  else if digestAlloc need mdsz = 0 then
    .error (.halt (.fatal "xmalloc: zero size" []))
  else do
    let start := keyPrefix bugs hash sharedSecret
    let digest ← digestFinal (digestAlloc need mdsz) []
      (D.hash evpMd (start ++ [id] ++ sessionId))
    expandIn D evpMd start (digestAlloc need mdsz) need.toNat need.toNat digest

/-- `K1 || ... || Kn+1` -/
def keyStream (md : EvpMd) (start first : Bytes) : Nat → Bytes
  | 0 => D.hash md first
  | n + 1 => keyStream md start first n ++ D.hash md (start ++ keyStream md start first n)

variable {D} {md : EvpMd} {start first : Bytes}

theorem keyStream_length (n : Nat) :
    (keyStream D md start first n).length = (n + 1) * D.size md := by
  induction n with
  | zero => rw [keyStream, D.hash_length, zero_add, Nat.one_mul]
  | succ n ih => rw [keyStream, List.length_append, ih, D.hash_length, Nat.succ_mul (n + 1)]

theorem keyStream_prefix {m n : Nat} (h : m ≤ n) :
    keyStream D md start first m <+: keyStream D md start first n := by
  induction n, h using Nat.le_induction with
  | base => exact List.prefix_rfl
  | succ n _ ih => exact ih.trans (List.prefix_append _ _)

/-- What the loop makes without writing outside is the key. -/
theorem expandKey_of_expandIn {alloc need fuel : Nat} {digest key : Bytes}
    (h : expandIn D md start alloc need fuel digest = .ok key) :
    expandKey D md start need fuel digest = key := by
  induction fuel generalizing digest with
  | zero => exact Except.ok.inj h
  | succ fuel ih =>
    rw [expandIn] at h
    rw [expandKey]
    split
    · rename_i hneed
      rw [if_pos hneed, digestFinal] at h
      split at h
      · exact ih h
      · cases h
    · rename_i hneed
      rw [if_neg hneed] at h
      exact Except.ok.inj h

/-- The loop stops with the first block that ends behind `need`. -/
theorem expandIn_stream {need fuel n : Nat} (hstart : n * D.size md < need)
    (hfuel : need ≤ (n + 1) * D.size md + fuel) :
    expandIn D md start ((need + (D.size md - 1)) / D.size md * D.size md) need fuel
      (keyStream D md start first n) =
      .ok (keyStream D md start first ((need - 1) / D.size md)) := by
  have hsize := D.size_pos md
  have hlast : ∀ n, n * D.size md < need → need ≤ (n + 1) * D.size md →
      (need - 1) / D.size md = n := fun n hlt hle => Nat.div_eq_of_lt_le (by omega) (by omega)
  induction fuel generalizing n with
  | zero => rw [expandIn, hlast n hstart hfuel]
  | succ fuel ih =>
    rw [expandIn, keyStream_length]
    split
    · rename_i hneed
      have hroom : (n + 1 + 1) * D.size md ≤ (need + (D.size md - 1)) / D.size md * D.size md := by
        refine Nat.mul_le_mul_right _ ((Nat.le_div_iff_mul_le hsize).mpr ?_)
        rw [Nat.succ_mul (n + 1)]
        omega
      rw [digestFinal, D.hash_length, keyStream_length,
        if_pos (by rw [← Nat.succ_mul]; exact hroom)]
      apply ih hneed
      rw [Nat.succ_mul (n + 1)]
      omega
    · rename_i hneed
      rw [hlast n hstart (not_lt.mp hneed)]

variable (D)

theorem deriveKey_of_deriveKeyIn {evpMd : EvpMd} {sessionId : Bytes} {id : UInt8} {need : UInt32}
    {hash key : Bytes} {sharedSecret : Nat}
    (h : deriveKeyIn D bugs evpMd sessionId id need hash sharedSecret = .ok key) :
    deriveKey D bugs evpMd sessionId id need.toNat hash sharedSecret = .ok key := by
  have hsize := (D.size_pos evpMd).ne'
  rw [deriveKeyIn, if_neg hsize] at h
  rw [deriveKey, if_neg hsize]
  split at h
  · cases h
  · simp only [digestFinal, List.nil_append] at h
    split at h
    · exact congrArg Except.ok (expandKey_of_expandIn h)
    · cases h

theorem deriveKeyIn_eq (evpMd : EvpMd) (sessionId : Bytes) (id : UInt8) {need : UInt32}
    (hneed : 1 ≤ need.toNat) (hash : Bytes) (sharedSecret : Nat) :
    deriveKeyIn D bugs evpMd sessionId id need hash sharedSecret =
      if need.toNat + D.size evpMd ≤ 2 ^ 32 then
        let start := keyPrefix bugs hash sharedSecret
        .ok (keyStream D evpMd start (start ++ [id] ++ sessionId)
          ((need.toNat - 1) / D.size evpMd))
      else .error (.halt (.fatal "xmalloc: zero size" [])) := by
  have hsize := D.size_pos evpMd
  have hlt := need.toNat_lt
  rw [deriveKeyIn, if_neg hsize.ne', digestAlloc]
  by_cases hsum : need.toNat + D.size evpMd ≤ 2 ^ 32
  · have hblock : D.size evpMd ≤
        (need.toNat + (D.size evpMd - 1)) / D.size evpMd * D.size evpMd :=
      Nat.le_mul_of_pos_left _ (Nat.div_pos (by omega) hsize)
    rw [if_pos hsum, Nat.mod_eq_of_lt (by omega), if_neg (by omega)]
    simp only [digestFinal, D.hash_length, List.length_nil, zero_add, if_pos hblock]
    exact expandIn_stream (n := 0) (by omega) (by omega)
  · have hwraps : (need.toNat + (D.size evpMd - 1)) % 2 ^ 32 < D.size evpMd := by omega
    rw [if_neg hsum, Nat.div_eq_of_lt hwraps, Nat.zero_mul, if_pos rfl]

/-- **Key expansion.** A key is the beginning of its stream, and keys of other lengths are
beginnings of one another, exactly if the sum in `roundup` does not wrap around. -/
theorem deriveKey_expands (evpMd : EvpMd) (sessionId : Bytes) (id : UInt8) (need : UInt32)
    (hneed : 1 ≤ need.toNat) (hash : Bytes) (sharedSecret : Nat) :
    (∃ key n, deriveKeyIn D bugs evpMd sessionId id need hash sharedSecret = .ok key ∧
        deriveKey D bugs evpMd sessionId id need.toNat hash sharedSecret = .ok key ∧
        need.toNat ≤ key.length ∧
        key = keyStream D evpMd (keyPrefix bugs hash sharedSecret)
          (keyPrefix bugs hash sharedSecret ++ [id] ++ sessionId) n ∧
        ∀ need' key', 1 ≤ need'.toNat → need' ≤ need →
          deriveKeyIn D bugs evpMd sessionId id need' hash sharedSecret = .ok key' → key' <+: key) ↔
      need.toNat + D.size evpMd ≤ 2 ^ 32 := by
  rw [deriveKeyIn_eq D bugs evpMd sessionId id hneed]
  constructor
  · rintro ⟨key, n, hok, -⟩
    by_contra hsum
    rw [if_neg hsum] at hok
    cases hok
  · intro hsum
    have hsize := D.size_pos evpMd
    have hkey := (deriveKeyIn_eq D bugs evpMd sessionId id hneed hash sharedSecret).trans
      (if_pos hsum)
    refine ⟨_, _, if_pos hsum, deriveKey_of_deriveKeyIn D bugs hkey, ?_, rfl,
      fun need' key' hneed' hle hok => ?_⟩
    · rw [keyStream_length, mul_comm]
      have := Nat.lt_mul_div_succ (need.toNat - 1) hsize
      omega
    · rw [deriveKeyIn_eq D bugs evpMd sessionId id hneed'] at hok
      split at hok
      · rw [← Except.ok.inj hok]
        have hle' := UInt32.le_iff_toNat_le.mp hle
        exact keyStream_prefix (Nat.div_le_div_right (by omega))
      · cases hok

/-- Forty bytes of SHA-1 -/
theorem deriveKey_expands_forty : 1 ≤ (40 : UInt32).toNat ∧ ∃ key,
    deriveKeyIn Digests.null {} .sha1 [] 0x41 40 [] 1 = .ok key ∧ 40 ≤ key.length := by
  obtain ⟨key, -, hok, -, hlen, -⟩ :=
    (deriveKey_expands Digests.null {} .sha1 [] 0x41 40 (by decide) [] 1).mpr (by decide)
  exact ⟨by decide, key, hok, hlen⟩

/-- The largest `u_int` is no length that a key can have. -/
theorem deriveKey_wraps : 1 ≤ (0xffffffff : UInt32).toNat ∧
    deriveKeyIn Digests.null {} .sha1 [] 0x41 0xffffffff [] 1 =
      .error (.halt (.fatal "xmalloc: zero size" [])) := ⟨by decide, rfl⟩

end Shiesh.Kex
