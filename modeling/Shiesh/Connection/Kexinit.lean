import Shiesh.Connection.Model

/-!
# The Two Parsers of KEXINIT

`kex_input_kexinit` goes through the packet only to see that it is well formed; the lists are taken
by `kex_buf2prop` from a copy.
-/

namespace Shiesh.Connection

open Shiesh.Lib Shiesh.Kex List

variable {rest : Bytes} {E : Halt → Bytes → Prop}

theorem wp_skipCookie {Q : Unit → Bytes → Prop} (cookie : Bytes) :
    wp (skipCookie cookie.length) Q E (cookie ++ rest) ↔ Q () rest := by
  induction cookie with
  | nil => exact wp_pure _
  | cons c cookie ih =>
    rw [length_cons, skipCookie, wp_bind, bufferGetChar, wp_bind, cons_append, ← singleton_append,
      wp_bufferGetOr _ length_singleton, wp_pure, ih]

/-- What `kex_buf2prop` makes of a body that is well formed -/
theorem kexBuf2prop_reads (p : Proposal) (hp : ∀ l ∈ p.lists, l.length ≤ 256 * 1024)
    {cookie : Bytes}
    (hcookie : cookie.length = kexCookieLen) (c : UInt8) (reserved : UInt32) :
    readCopy kexBuf2prop (cookie ++ (p.lists.flatMap putString ++ c :: putU32 reserved)) =
      .ok (p, decide (c ≠ 0)) := by
  have hrun : wp kexBuf2prop (fun r _ => r = (p, decide (c ≠ 0))) never
      (cookie ++ (p.lists.flatMap putString ++ c :: putU32 reserved)) := by
    simp only [Proposal.lists, forall_mem_cons] at hp
    obtain ⟨h0, h1, h2, h3, h4, h5, h6, h7, h8, h9, -⟩ := hp
    rw [← append_nil (putU32 reserved), ← singleton_append]
    simp only [kexBuf2prop, ← hcookie, wp_bind, wp_skipCookie, Proposal.lists, flatMap_cons,
      flatMap_nil,
      append_assoc, nil_append, wp_bufferGetString, h0, h1, h2, h3, h4, h5, h6, h7, h8, h9,
      bufferGetChar, wp_bufferGetOr _ length_singleton, wp_pure, wp_bufferGetInt]
    rfl
  obtain ⟨r, rest, hok, rfl⟩ := ok_of_wp_total hrun
  rw [readCopy, hok]

theorem packetGetChar_takes (b : Bytes) : wp packetGetChar (fun c rest => b = c :: rest) any b := by
  rw [packetGetChar]
  refine wp_seq_any (bufferGetOr_takes _ 1 b) fun front rest h => ?_
  obtain ⟨c, rfl⟩ := length_eq_one_iff.mp h.1
  exact (wp_pure _).mpr h.2

theorem chars_takes (n : Nat) (b : Bytes) :
    wp (discardKexinit.chars n) (fun _ rest => ∃ cookie, cookie.length = n ∧ b = cookie ++ rest)
      any b := by
  induction n generalizing b with
  | zero => exact (wp_pure _).mpr ⟨[], rfl, rfl⟩
  | succ n ih =>
    rw [discardKexinit.chars]
    refine wp_seq_any (packetGetChar_takes b) fun c b' hb => ?_
    refine wp_weaken (ih b') fun _ rest h => ?_
    obtain ⟨cookie, rfl, rfl⟩ := h
    exact ⟨c :: cookie, rfl, hb⟩

theorem strings_takes (n : Nat) (b : Bytes) :
    wp (discardKexinit.strings n) (fun _ rest => ∃ ls : List Bytes, ls.length = n ∧
      (∀ l ∈ ls, l.length ≤ 256 * 1024) ∧ b = ls.flatMap putString ++ rest) any b := by
  induction n generalizing b with
  | zero => exact (wp_pure _).mpr ⟨[], rfl, by simp, rfl⟩
  | succ n ih =>
    rw [discardKexinit.strings]
    refine wp_seq_any (bufferGetString_takes b) fun l b' hl => ?_
    refine wp_weaken (ih b') fun _ rest h => ?_
    obtain ⟨ls, rfl, hls, rfl⟩ := h
    refine ⟨l :: ls, rfl, forall_mem_cons.mpr ⟨hl.1, hls⟩, ?_⟩
    rw [flatMap_cons, append_assoc]
    exact hl.2

theorem exists_lists : ∀ {ls : List Bytes}, ls.length = 10 → ∃ p : Proposal, p.lists = ls
  | [a, b, c, d, e, f, g, h, i, j], _ => ⟨⟨a, b, c, d, e, f, g, h, i, j⟩, rfl⟩

/-- **KEXINIT.** The lists that were written are read; and where the packet is well formed for
`kex_input_kexinit`, the copy is so for `kex_buf2prop`, which takes the same strings and flag. -/
theorem kexinit_codec :
    (∀ p : Proposal, (∀ l ∈ p.lists, 0 ∉ l ∧ l.length ≤ 256 * 1024) →
      readCopy kexBuf2prop (kexProp2buf p) = .ok (p, false)) ∧
    ∀ body rest, discardKexinit body = .ok () rest → rest = [] ∧
      ∃ cookie p c reserved, cookie.length = kexCookieLen ∧
        (∀ l ∈ Proposal.lists p, l.length ≤ 256 * 1024) ∧
        body = cookie ++ (p.lists.flatMap putString ++ c :: putU32 reserved) ∧
        readCopy kexBuf2prop body = .ok (p, decide (c ≠ 0)) := by
  constructor
  · intro p hp
    have hlists : p.lists.flatMap putCstring = p.lists.flatMap putString :=
      flatMap_congr fun l hl => by rw [putCstring, cstr_of_notMem (hp l hl).1]
    have hread := kexBuf2prop_reads p (fun l hl => (hp l hl).2) (length_replicate (a := 0)) 0 0
    rw [kexProp2buf, hlists, append_assoc, append_assoc]
    exact hread
  · intro body rest hok
    have hrun : wp discardKexinit (fun _ rest => rest = [] ∧
        ∃ (cookie : Bytes) (ls : List Bytes) (c : UInt8) (reserved : UInt32),
        cookie.length = kexCookieLen ∧ ls.length = 10 ∧ (∀ l ∈ ls, l.length ≤ 256 * 1024) ∧
        body = cookie ++ (ls.flatMap putString ++ c :: putU32 reserved)) any body := by
      rw [discardKexinit]
      refine wp_seq_any (chars_takes _ body) fun _ b1 h1 => ?_
      refine wp_seq_any (strings_takes _ b1) fun _ b2 h2 => ?_
      refine wp_seq_any (packetGetChar_takes b2) fun c b3 h3 => ?_
      refine wp_seq_any (bufferGetInt_takes b3) fun reserved b4 h4 => ?_
      obtain ⟨cookie, hcookie, rfl⟩ := h1
      obtain ⟨ls, hcount, hls, rfl⟩ := h2
      rw [packetCheckEom, wp_read, wp_ite, wp_throw, wp_pure]
      refine ⟨fun _ => trivial, fun hend => ?_⟩
      obtain rfl : b4 = [] := by simpa using hend
      rw [append_nil] at h4
      exact ⟨rfl, cookie, ls, c, reserved, hcookie, hcount, hls, by rw [h3, h4]⟩
    obtain ⟨hnil, cookie, ls, c, reserved, hcookie, hcount, hls, rfl⟩ := (wp_of_ok hok).mp hrun
    obtain ⟨p, rfl⟩ := exists_lists hcount
    exact ⟨hnil, cookie, p, c, reserved, hcookie, hls, rfl,
      kexBuf2prop_reads p hls hcookie c reserved⟩

-- the copy of a packet with one method is accepted, and read
theorem kexinit_codec_accepts :
    let p : Proposal := ⟨ascii "a", [], [], [], [], [], [], [], [], []⟩
    returns discardKexinit (kexProp2buf p) = true ∧
      ∃ p' c, readCopy kexBuf2prop (kexProp2buf p) = .ok (p', c) := by
  intro p
  have hreturns : returns discardKexinit (kexProp2buf p) = true := by decide +kernel
  obtain ⟨-, _, p', c, _, -, -, -, hread⟩ := kexinit_codec.2 _ _ (ok_endState hreturns)
  exact ⟨hreturns, p', _, hread⟩

end Shiesh.Connection
