import Shiesh.Buffer
import Shiesh.Kex.Hash
import Shiesh.Mpint

/-!
# What the Exchange Hash is Taken of

`kex_dh_hash` collects its arguments in a buffer. Every one of them is a string there, the
KEXINIT messages with the type in front, so that the buffer tells them apart.
-/

namespace Shiesh.Kex

open Shiesh.Lib Shiesh.Transport Buffer List

/-- The arguments of `kex_dh_hash` -/
structure HashInput where
  clientVersionString : Bytes
  serverVersionString : Bytes
  ckexinit : Bytes
  skexinit : Bytes
  serverhostkeyblob : Bytes
  clientDhPub : Nat
  serverDhPub : Nat
  sharedSecret : Nat
  deriving DecidableEq

/-- `buffer_put_bignum2` -/
def bufferPutBignum2 (value : Nat) : BufferM Unit :=
  if value = 0 then Buffer.putInt 0 else Buffer.putString (mpint value)

/-- The fake header of a KEXINIT message, and the message -/
def bufferPutKexinit (kexinit : Bytes) : BufferM Unit := do
  Buffer.putInt (UInt32.ofNat (kexinit.length + 1))
  Buffer.append [Ssh2Msg.kexinit]
  Buffer.append kexinit

namespace HashInput

def feed (t : HashInput) : BufferM Unit := do
  Buffer.putString (cstr t.clientVersionString)
  Buffer.putString (cstr t.serverVersionString)
  bufferPutKexinit t.ckexinit
  bufferPutKexinit t.skexinit
  Buffer.putString t.serverhostkeyblob
  bufferPutBignum2 t.clientDhPub
  bufferPutBignum2 t.serverDhPub
  bufferPutBignum2 t.sharedSecret

/-- The bytes that go to the digest, unless the buffer cannot take them. -/
def fed (t : HashInput) : Option Bytes :=
  match t.feed .init with
  | .ok _ b => some b.contents
  | .error _ _ => none

def strings (t : HashInput) : List Bytes :=
  [cstr t.clientVersionString, cstr t.serverVersionString, Ssh2Msg.kexinit :: t.ckexinit,
    Ssh2Msg.kexinit :: t.skexinit, t.serverhostkeyblob, mpint t.clientDhPub, mpint t.serverDhPub,
    mpint t.sharedSecret]

end HashInput

/-- `m` appends `p` to the buffer. -/
def Adds (m : BufferM Unit) (p : Bytes) : Prop :=
  ∀ b, wp m (fun _ b' => b'.contents = b.contents ++ p) (fun _ _ => True) b

theorem Adds.bind {m n : BufferM Unit} {p q : Bytes} (hm : Adds m p) (hn : Adds n q) :
    Adds (do m; n) (p ++ q) := by
  intro b
  refine wp_seq_any (hm b) fun _ b1 h1 => wp_weaken (hn b1) fun _ b2 h2 => ?_
  rw [h2, h1, append_assoc]

theorem append_adds (p : Bytes) : Adds (append p) p := fun b =>
  wp_weaken (append_spec p b) fun _ _ h => h

theorem bufferPutBignum2_adds (n : Nat) : Adds (bufferPutBignum2 n) (putString (mpint n)) := by
  by_cases hn : n = 0
  · rw [hn]
    exact append_adds _
  · rw [bufferPutBignum2, if_neg hn]
    exact putString_spec _

theorem bufferPutKexinit_adds (kexinit : Bytes) :
    Adds (bufferPutKexinit kexinit) (putString (Ssh2Msg.kexinit :: kexinit)) :=
  (append_adds _).bind ((append_adds [Ssh2Msg.kexinit]).bind (append_adds kexinit))

theorem HashInput.feed_adds (t : HashInput) : Adds t.feed (t.strings.flatMap putString) := by
  have hstring : ∀ b, Adds (Buffer.putString b) (putString b) := Buffer.putString_spec
  have h := (hstring (cstr t.clientVersionString)).bind ((hstring (cstr t.serverVersionString)).bind
    ((bufferPutKexinit_adds t.ckexinit).bind ((bufferPutKexinit_adds t.skexinit).bind
      ((hstring t.serverhostkeyblob).bind ((bufferPutBignum2_adds t.clientDhPub).bind
        ((bufferPutBignum2_adds t.serverDhPub).bind (bufferPutBignum2_adds t.sharedSecret)))))))
  simpa [strings, feed] using h

theorem putStrings_inj {xs ys : List Bytes} (hlen : xs.length = ys.length)
    (hx : (xs.flatMap putString).length < UInt32.size)
    (h : xs.flatMap putString = ys.flatMap putString) : xs = ys := by
  induction xs generalizing ys with
  | nil => exact (eq_nil_of_length_eq_zero hlen.symm).symm
  | cons x xs ih =>
    cases ys with
    | nil => cases hlen
    | cons y ys =>
      have hy : ((y :: ys).flatMap putString).length < UInt32.size := h ▸ hx
      rw [flatMap_cons, length_append, putString_length] at hx hy
      rw [flatMap_cons, flatMap_cons] at h
      obtain ⟨rfl, hrest⟩ := putString_append_inj (by omega) (by omega) h
      rw [ih (Nat.succ.inj hlen) (by omega) hrest]

/-- The version strings are C strings. -/
def HashInput.NulFree (t : HashInput) : Prop :=
  0 ∉ t.clientVersionString ∧ 0 ∉ t.serverVersionString

theorem HashInput.strings_inj {t t' : HashInput} (ht : t.NulFree) (ht' : t'.NulFree)
    (h : t.strings = t'.strings) : t = t' := by
  have hmpint : ∀ {n m}, mpint n = mpint m → n = m := fun {n m} heq => by
    rw [← (mpint_shortest n).encodes.1, heq, (mpint_shortest m).encodes.1]
  simp only [strings, cons.injEq, cstr_of_notMem ht.1, cstr_of_notMem ht.2, true_and, and_true,
    cstr_of_notMem ht'.1, cstr_of_notMem ht'.2] at h
  obtain ⟨hvc, hvs, hic, his, hks, he, hf, hk⟩ := h
  cases t
  cases t'
  simp only [HashInput.mk.injEq]
  exact ⟨hvc, hvs, hic, his, hks, hmpint he, hmpint hf, hmpint hk⟩

theorem HashInput.fed_eq {t : HashInput} {bytes : Bytes} (h : t.fed = some bytes) :
    t.strings.flatMap putString = bytes ∧ bytes.length < UInt32.size := by
  have hwp := t.feed_adds .init
  rw [fed] at h
  split at h
  · rename_i b hb
    rw [wp_of_ok hb, contents_init, nil_append] at hwp
    have hbytes := Option.some.inj h
    rw [← hwp, hbytes, ← hbytes, contents_length]
    exact ⟨rfl, b.len_lt_size⟩
  · cases h

/-- The hash of the key exchange is the digest of these bytes. -/
theorem HashInput.kexDhHash_eq (D : Digests) {t : HashInput} {bytes : Bytes}
    (h : t.fed = some bytes) :
    kexDhHash D t.clientVersionString t.serverVersionString t.ckexinit t.skexinit
      t.serverhostkeyblob t.clientDhPub t.serverDhPub t.sharedSecret = D.hash .sha1 bytes := by
  rw [← (fed_eq h).1, kexDhHash, hashHead, hashTail]
  simp [strings, putString, putCstring, putBignum2_eq]

/-- **The exchange hash** is taken of different bytes for different arguments. -/
theorem HashInput.fed_injective (t t' : HashInput) (ht : t.NulFree) (ht' : t'.NulFree)
    (bytes : Bytes) (h : t.fed = some bytes) (h' : t'.fed = some bytes) : t = t' := by
  obtain ⟨ht1, hlen⟩ := fed_eq h
  have hsame := ht1.trans (fed_eq h').1.symm
  exact strings_inj ht ht' (putStrings_inj rfl (ht1 ▸ hlen) hsame)

/-- A first exchange -/
def HashInput.sample : HashInput :=
  ⟨ascii "SSH-2.0-C", ascii "SSH-2.0-S", [1], [2], [3], 4, 500, 0⟩

theorem HashInput.fed_injective_sample : ∃ bytes, sample.fed = some bytes ∧ sample = sample := by
  have h : sample.fed.isSome = true := by decide +kernel
  obtain ⟨bytes, hbytes⟩ := Option.isSome_iff_exists.mp h
  have hnul : sample.NulFree := ⟨by decide, by decide⟩
  exact ⟨bytes, hbytes, fed_injective sample sample hnul hnul bytes hbytes hbytes⟩

end Shiesh.Kex
