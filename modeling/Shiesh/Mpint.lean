import Mathlib.Tactic.Linarith
import Shiesh.Wire

/-!
# Numbers on the Wire

`buffer_put_bignum2_ret` and `buffer_get_bignum2_ret`. A number is written as a string of
bytes whose top bit is clear; of all such strings the shortest is written, and any of at
most 8k bytes is read.
-/

namespace Shiesh

open Shiesh.Lib List

/-! ## Readers that return -1 -/

def bufferGetStringRet : Get (Option Bytes) := do
  -- this one does not return
  let len ← bufferGetInt
  if len > 256 * 1024 then
    pure none
  else
    match bufferGetRet (← get) len.toNat with
    | none => pure none
    | some (front, rest) => do
      set rest
      pure (some front)

def bufferGetBignum2Ret : Get (Option Nat) := do
  match ← bufferGetStringRet with
  | none => pure none
  | some bin =>
    if bin.headD 0 &&& 0x80 ≠ 0 then pure none
    else if bin.length > 8 * 1024 then pure none
    else pure (some (beNat bin))

/-! ## Encodings of a number -/

theorem topBit_iff (c : UInt8) : c &&& 0x80 = 0 ↔ c.toNat < 128 := by
  obtain ⟨⟨⟨n, hn⟩⟩⟩ := c
  revert n
  decide +kernel

/-- The top bit says whether there is room for another one. -/
theorem topClear_iff (bs : Bytes) : bs.headD 0 &&& 0x80 = 0 ↔ 2 * beNat bs < 256 ^ bs.length := by
  cases bs with
  | nil => decide
  | cons c bs =>
    have hlt := beNat_lt bs
    rw [headD_cons, topBit_iff, beNat_cons, length_cons, Nat.pow_succ]
    constructor
    · intro hc
      nlinarith
    · intro h
      by_contra hc
      nlinarith [not_lt.mp hc]

/-- `bs` stands for `n`, which is not negative. -/
def Encodes (n : Nat) (bs : Bytes) : Prop := beNat bs = n ∧ bs.headD 0 &&& 0x80 = 0

/-- No encoding is shorter, and no other is as short. -/
structure Shortest (n : Nat) (bs : Bytes) : Prop where
  encodes : Encodes n bs
  le {bs' : Bytes} : Encodes n bs' → bs.length ≤ bs'.length
  unique {bs' : Bytes} : Encodes n bs' → bs'.length = bs.length → bs' = bs

variable {n : Nat} {bs rest : Bytes} {E : Halt → Bytes → Prop} {Q : Option Nat → Bytes → Prop}

theorem shortest_of_le (h : Encodes n bs)
    (hle : bs ≠ [] → 256 ^ (bs.length - 1) ≤ 2 * n) : Shortest n bs := by
  refine ⟨h, fun {bs'} h' => ?_, fun {bs'} h' hlen => ?_⟩
  · by_contra hshort
    have hne : bs ≠ [] := ne_nil_of_length_pos (by omega)
    have hpow : 256 ^ bs'.length ≤ 256 ^ (bs.length - 1) :=
      Nat.pow_le_pow_right (by decide) (by omega)
    have hclear := (topClear_iff bs').mp h'.2
    rw [h'.1] at hclear
    have := hle hne
    omega
  · rw [← beBytes_beNat bs', ← beBytes_beNat bs, h'.1, h.1, hlen]

/-- Eight bits go in a byte, one of them is the sign. -/
theorem Shortest.length_le {k : Nat} (h : Shortest n bs) (hn : n < 2 ^ (8 * k + 7)) :
    bs.length ≤ k + 1 := by
  have hpow : 256 ^ (k + 1) = 2 ^ (8 * k + 7) * 2 := by
    rw [← Nat.pow_succ, show (256 : Nat) = 2 ^ 8 from rfl, ← Nat.pow_mul, Nat.mul_succ]
  have hvalue : beNat (beBytes (k + 1) n) = n := by
    rw [beNat_beBytes, Nat.mod_eq_of_lt]
    omega
  have hfits : Encodes n (beBytes (k + 1) n) := by
    refine ⟨hvalue, (topClear_iff _).mpr ?_⟩
    rw [hvalue, beBytes_length]
    omega
  have hle := h.le hfits
  rw [beBytes_length] at hle
  exact hle

/-- What `buffer_put_bignum2_ret` writes behind the length -/
def mpint (n : Nat) : Bytes :=
  if n = 0 then [] else
    let bin := bnBytes n
    if bin.headD 0 &&& 0x80 = 0 then bin else 0 :: bin

theorem putBignum2_eq (n : Nat) : putBignum2 n = putString (mpint n) := by
  rw [putBignum2, mpint]
  split <;> rfl

theorem mpint_shortest (n : Nat) : Shortest n (mpint n) := by
  rw [mpint]
  by_cases hn : n = 0
  · rw [if_pos hn, hn]
    exact shortest_of_le ⟨rfl, rfl⟩ fun h => absurd rfl h
  -- the number of bytes without the sign
  obtain ⟨w, hw⟩ : ∃ w, w = n.log2 / 8 := ⟨_, rfl⟩
  have hpow : ∀ k, 256 ^ k = 2 ^ (8 * k) := fun k => by rw [Nat.pow_mul]
  have hlow : 256 ^ w ≤ n := by
    rw [hpow]
    exact (Nat.pow_le_pow_right (by decide) (by omega)).trans (Nat.log2_self_le hn)
  have hhigh : n < 256 ^ (w + 1) := by
    rw [hpow]
    exact Nat.lt_log2_self.trans_le (Nat.pow_le_pow_right (by decide) (by omega))
  have hvalue : beNat (beBytes (w + 1) n) = n := by rw [beNat_beBytes, Nat.mod_eq_of_lt hhigh]
  rw [if_neg hn, bnBytes, if_neg hn, ← hw]
  by_cases hclear : (beBytes (w + 1) n).headD 0 &&& 0x80 = 0
  · simp only [if_pos hclear]
    refine shortest_of_le ⟨hvalue, hclear⟩ fun _ => ?_
    rw [beBytes_length]
    exact hlow.trans (by omega)
  · simp only [if_neg hclear]
    refine shortest_of_le ⟨?_, UInt8.zero_and⟩ fun _ => ?_
    · rw [beNat_cons, hvalue, UInt8.toNat_zero, Nat.zero_mul, zero_add]
    · rw [topClear_iff, hvalue, beBytes_length] at hclear
      rw [length_cons, beBytes_length]
      exact not_lt.mp hclear

/-! ## Reading -/

theorem wp_bufferGetStringRet (v : UInt32) (rest : Bytes) {Q : Option Bytes → Bytes → Prop} :
    wp bufferGetStringRet Q E (putU32 v ++ rest) ↔
      if v.toNat ≤ 256 * 1024 ∧ v.toNat ≤ rest.length then
        Q (some (rest.take v.toNat)) (rest.drop v.toNat)
      else Q none rest := by
  have hlong : v > 256 * 1024 ↔ ¬v.toNat ≤ 256 * 1024 := by
    rw [gt_iff_lt, UInt32.lt_iff_toNat_lt, not_le]
    rfl
  rw [bufferGetStringRet, wp_bind, wp_bufferGetInt]
  by_cases hv : v > 256 * 1024
  · rw [if_pos hv, if_neg fun h => hlong.mp hv h.1, wp_pure]
  · rw [if_neg hv, wp_read, bufferGetRet]
    have hv := not_not.mp (mt hlong.mpr hv)
    by_cases hrest : v.toNat ≤ rest.length
    · rw [if_neg (not_lt.mpr hrest), if_pos ⟨hv, hrest⟩]
      rw [wp_write, wp_pure]
    · rw [if_pos (not_le.mp hrest), if_neg fun h => hrest h.2]
      rw [wp_pure]

/-- The length `v` and what stands behind it are those of a number. -/
def Readable (v : UInt32) (rest : Bytes) : Prop :=
  v.toNat ≤ 8 * 1024 ∧ v.toNat ≤ rest.length ∧ (rest.take v.toNat).headD 0 &&& 0x80 = 0

theorem bufferGetBignum2Ret_spec {v : UInt32}
    (hok : Readable v rest → Q (some (beNat (rest.take v.toNat))) (rest.drop v.toNat))
    (hno : ¬Readable v rest → ∀ b, Q none b) : wp bufferGetBignum2Ret Q E (putU32 v ++ rest) := by
  rw [bufferGetBignum2Ret, wp_bind, wp_bufferGetStringRet]
  by_cases hread : v.toNat ≤ 256 * 1024 ∧ v.toNat ≤ rest.length
  · have hlen : (rest.take v.toNat).length = v.toNat := length_take_of_le hread.2
    rw [if_pos hread]
    simp only [hlen]
    rw [wp_ite, wp_ite, wp_pure, wp_pure]
    exact ⟨fun hset => hno (fun h => hset h.2.2) _, fun hclear =>
      ⟨fun hlong => hno (fun h => not_lt.mpr h.1 hlong) _, fun hshort =>
        hok ⟨not_lt.mp hshort, hread.2, not_not.mp hclear⟩⟩⟩
  · rw [if_neg hread]
    rw [wp_pure]
    exact hno (fun h => hread ⟨h.1.trans (by decide), h.2.1⟩) rest

/-- What is written is read, and what follows is left. -/
theorem wp_putBignum2 (hn : n < 2 ^ 65535) (hQ : Q (some n) rest) :
    wp bufferGetBignum2Ret Q E (putBignum2 n ++ rest) := by
  rw [show 65535 = 8 * 8191 + 7 from rfl] at hn
  have hlen : (mpint n).length ≤ 8 * 1024 := (mpint_shortest n).length_le hn
  have h := (mpint_shortest n).encodes
  have hnum : (UInt32.ofNat (mpint n).length).toNat = (mpint n).length :=
    UInt32.toNat_ofNat_of_lt (lt_of_le_of_lt hlen (by decide))
  rw [putBignum2_eq, putString, append_assoc]
  apply bufferGetBignum2Ret_spec
  · rw [hnum, take_left, drop_left, h.1]
    exact fun _ => hQ
  · rw [Readable, hnum, take_left]
    exact fun hno => absurd ⟨hlen, by simp, h.2⟩ hno

/-- **Numbers.** The shortest encoding is written and read back; what is read is what has at most
8k bytes and no sign. -/
theorem mpint_codec (n : Nat) (hn : n < 2 ^ 65535) (rest b : Bytes) (hb : 4 ≤ b.length) :
    (∃ bs, putBignum2 n = putString bs ∧ Shortest n bs ∧ (n = 0 → bs = [])) ∧
      bufferGetBignum2Ret (putBignum2 n ++ rest) = .ok (some n) rest ∧
      ((∃ m b', bufferGetBignum2Ret b = .ok (some m) b') ↔
        Readable (getU32 (b.take 4)) (b.drop 4)) := by
  refine ⟨⟨mpint n, putBignum2_eq n, mpint_shortest n, fun hzero => if_pos hzero⟩, ?_, ?_⟩
  · obtain ⟨m, b', hread, rfl, rfl⟩ := ok_of_wp_total
      (wp_putBignum2 (Q := fun m b' => m = some n ∧ b' = rest) hn ⟨rfl, rfl⟩)
    exact hread
  · have hlength : putU32 (getU32 (b.take 4)) ++ b.drop 4 = b := by
      rw [putU32_getU32 (length_take_of_le hb), take_append_drop]
    have haccepts : wp bufferGetBignum2Ret (fun m _ => m.isSome ↔
        Readable (getU32 (b.take 4)) (b.drop 4)) never
        (putU32 (getU32 (b.take 4)) ++ b.drop 4) :=
      bufferGetBignum2Ret_spec (fun h => by simp [h]) fun h _ => by simp [h]
    rw [hlength] at haccepts
    obtain ⟨m, b', hread, hm⟩ := ok_of_wp_total haccepts
    rw [← hm, hread]
    cases m <;> simp

/-- The top bit of 128 is set, so that a zero is put before it. -/
theorem mpint_codec_128 : putBignum2 128 = [0, 0, 0, 2, 0, 128] ∧ Shortest 128 [0, 128] ∧
    bufferGetBignum2Ret (putBignum2 128 ++ [7]) = .ok (some 128) [7] ∧
    ∃ m b', bufferGetBignum2Ret [0, 0, 0, 1, 5] = .ok (some m) b' := by
  have hn : 128 < 2 ^ 65535 :=
    Nat.lt_of_lt_of_le (m := 2 ^ 8) (by decide) (pow_le_pow_right₀ one_le_two (by decide))
  obtain ⟨⟨bs, hput, hshort, -⟩, hback, haccepts⟩ :=
    mpint_codec 128 hn [7] [0, 0, 0, 1, 5] (by decide)
  have hbytes : putBignum2 128 = [0, 0, 0, 2, 0, 128] := by decide
  have hbs : bs = [0, 128] := by
    rw [hbytes, putString] at hput
    have hsplit : [0, 0, 0, 2] ++ [0, 128] = putU32 (.ofNat bs.length) ++ bs := hput
    exact (append_inj_right hsplit (by simp)).symm
  exact ⟨hbytes, hbs ▸ hshort, hback, haccepts.mpr ⟨by decide, by decide, by decide⟩⟩

end Shiesh
