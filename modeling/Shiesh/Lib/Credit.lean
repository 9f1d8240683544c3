import Mathlib.Logic.Relation

/-!
# Credit Ledgers

Window-based flow control as seen by the receiver. A peer may send as many bytes as it has
credit for. Received bytes are buffered here, then wait for a consumer in another thread,
and what the consumer has taken is credited back to the peer.

The consumer counts what it takes in one of two counters, downwards from zero, and the
counters change places from time to time. All counters are 32-bit words that wrap around.

A consumer that takes whole messages may count only what is inside them. Then the bytes
around them have to be credited when a message is handed over; those that are not are lost.

## Main results

- `Ledger.Steps.ok`: no credit is lost or made, modulo `2 ^ 32`, and no more is held than
  the peer was granted at first
- `Ledger.stable_owes`: neither is when credit has been lost before; `Owes.credit`,
  `Owes.lose` and `Owes.handOver` are the rules for handing over whole messages
-/

namespace Shiesh.Lib

structure Ledger where
  -- the credit the peer has left
  window : UInt32
  -- consumed bytes that the peer has not been told about
  consumed : UInt32
  buffered : Nat
  waiting : Nat
  -- the consumer's counter, and the one to be collected
  counting : UInt32
  counted : UInt32
  max : UInt32
  -- are received bytes still buffered?
  accepting : Bool

namespace Ledger

variable (accepting : Bool)

/-- A ledger on which nothing has been written. -/
def blank (accepting : Bool) : Ledger where
  window := 0
  consumed := 0
  buffered := 0
  waiting := 0
  counting := 0
  counted := 0
  max := 0
  accepting := accepting

inductive Step : Ledger → Ledger → Prop
  | grant (accepting : Bool) (w : UInt32) :
      Step (blank accepting) { blank accepting with window := w, max := w }
  | receive (l : Ledger) (n : UInt32) (h : n ≤ l.window) (hacc : l.accepting = true) :
      Step l { l with window := l.window - n, buffered := l.buffered + n.toNat }
  -- received, and counted as consumed at once
  | discard (l : Ledger) (n : UInt32) (hacc : l.accepting = false) :
      Step l { l with window := l.window - n, consumed := l.consumed + n }
  | refuse (l : Ledger) : Step l { l with accepting := false }
  | forward (l : Ledger) :
      Step l { l with buffered := 0, waiting := l.waiting + l.buffered }
  | collect (l : Ledger) :
      Step l { l with consumed := l.consumed - l.counted, counted := 0 }
  | take (l : Ledger) (n : Nat) (h : n ≤ l.waiting) :
      Step l { l with waiting := l.waiting - n, counting := l.counting - UInt32.ofNat n }
  | swap (l : Ledger) : Step l { l with counting := l.counted, counted := l.counting }
  -- the peer is told
  | adjust (l : Ledger) : Step l { l with window := l.window + l.consumed, consumed := 0 }

abbrev Steps : Ledger → Ledger → Prop := Relation.ReflTransGen Step

/-- What is held here. -/
def held (l : Ledger) : Nat := l.buffered + l.waiting

/-- The balance of a ledger. -/
def balance (l : Ledger) : UInt32 :=
  l.window + l.consumed + UInt32.ofNat l.held - l.counting - l.counted

/-- The balance without wrapping. -/
def total (l : Ledger) : Nat :=
  l.window.toNat + l.consumed.toNat + l.held + (-l.counting).toNat + (-l.counted).toNat

/-- While bytes are accepted the counters do not wrap, so that the peer's credit bounds
what is held. Afterwards discarded bytes may make them wrap, but what is held only shrinks. -/
structure Ok (l : Ledger) : Prop where
  conserved : l.balance = l.max
  exact : l.accepting = true → l.total ≤ l.max.toNat
  bounded : l.held ≤ l.max.toNat

theorem blank_ok : (blank accepting).Ok :=
  ⟨by simp [balance, held, blank], fun _ => by simp [total, held, blank], by simp [held, blank]⟩

theorem held_le_total (l : Ledger) : l.held ≤ l.total := by
  rw [total]
  omega

/-- A sum that stays below a word does not wrap. -/
theorem toNat_add_of_le {a b : UInt32} (m : UInt32) (h : a.toNat + b.toNat ≤ m.toNat) :
    (a + b).toNat = a.toNat + b.toNat := by
  rw [UInt32.toNat_add]
  have := m.toNat_lt
  exact Nat.mod_eq_of_lt (by omega)

variable {l l' : Ledger}

theorem Step.balance (hstep : Step l l') (h : l.balance = l.max) : l'.balance = l'.max := by
  cases hstep with
  | grant accepting w => simp [Ledger.balance, held, blank]
  | receive _ n hn hacc =>
    simp only [Ledger.balance, held, UInt32.ofNat_add, UInt32.ofNat_toNat] at h ⊢
    grind
  | forward =>
    simp only [Ledger.balance, held, UInt32.ofNat_add] at h ⊢
    grind
  | take _ n hn =>
    have hsplit : UInt32.ofNat l.waiting = UInt32.ofNat (l.waiting - n) + UInt32.ofNat n := by
      rw [← UInt32.ofNat_add, Nat.sub_add_cancel hn]
    simp only [Ledger.balance, held, UInt32.ofNat_add, hsplit] at h ⊢
    grind
  | _ =>
    simp only [Ledger.balance, held] at h ⊢
    grind

/-- The step discards no more than the peer has credit for: the window does not grow, unless the
peer is told about all that was consumed. -/
def Frugal (l l' : Ledger) : Prop := l'.window ≤ l.window ∨ l'.consumed = 0

theorem Frugal.refl (l : Ledger) : Frugal l l := .inl (UInt32.le_refl _)

/-- The counters do not wrap. -/
def Within (l : Ledger) : Prop := l.total ≤ l.max.toNat

theorem within_blank : Within (blank accepting) := by
  simp [Within, total, held, blank]

/-- Bytes are discarded. -/
theorem Within.discard (h : l.Within) {n : UInt32}
    (hfrugal : l.window - n ≤ l.window ∨ l.consumed + n = 0) :
    Within { l with window := l.window - n, consumed := l.consumed + n } := by
  simp only [Within, Ledger.total, held] at h ⊢
  rcases hfrugal with hle | hzero
  · have hn : n.toNat ≤ l.window.toNat := by
      have hle' := UInt32.le_iff_toNat_le.mp hle
      have hw := l.window.toNat_lt
      have hn := n.toNat_lt
      simp only [UInt32.toNat_sub] at hle'
      omega
    rw [UInt32.toNat_sub_of_le _ _ (UInt32.le_iff_toNat_le.mpr hn),
      toNat_add_of_le l.max (by omega)]
    omega
  · -- the sum wraps to zero, and the window grows by what was consumed
    have hn : l.window - n = l.window + l.consumed := by grind
    rw [hn, hzero, toNat_add_of_le l.max (by omega), UInt32.toNat_zero]
    omega

/-- **No wrapping.** As long as the peer keeps to its credit the counters do not wrap, whether its
bytes are accepted or not. -/
theorem Step.within (hstep : Step l l') (hfrugal : Frugal l l') (h : l.Within) : l'.Within := by
  cases hstep with
  | grant accepting w => simp [Within, Ledger.total, held, blank]
  | receive _ n hn =>
    simp only [Within, Ledger.total, held, UInt32.toNat_sub_of_le _ _ hn] at h ⊢
    have := UInt32.le_iff_toNat_le.mp hn
    omega
  | discard _ n => exact h.discard hfrugal
  | refuse => exact h
  | forward =>
    simp only [Within, Ledger.total, held] at h ⊢
    omega
  | collect =>
    simp only [Within, Ledger.total, held] at h ⊢
    rw [UInt32.sub_eq_add_neg, toNat_add_of_le l.max (by omega)]
    simp only [UInt32.neg_zero, UInt32.toNat_zero]
    omega
  | take _ n hn =>
    simp only [Within, Ledger.total, held] at h ⊢
    have hn' : (UInt32.ofNat n).toNat = n := by
      have := l.max.toNat_lt
      exact UInt32.toNat_ofNat_of_lt (by rw [UInt32.size]; omega)
    have hneg : -(l.counting - UInt32.ofNat n) = -l.counting + UInt32.ofNat n := by grind
    rw [hneg, toNat_add_of_le l.max (by omega), hn']
    omega
  | swap =>
    simp only [Within, Ledger.total, held] at h ⊢
    omega
  | adjust =>
    simp only [Within, Ledger.total, held] at h ⊢
    rw [toNat_add_of_le l.max (by omega)]
    simp only [UInt32.toNat_zero]
    omega

/-- While bytes are accepted, none are discarded. -/
theorem Step.frugal (hstep : Step l l') (hacc : l'.accepting = true) : Frugal l l' := by
  cases hstep with
  | grant => exact .inr rfl
  | receive _ n hn => exact .inl (UInt32.sub_le hn)
  | discard _ n hrefused => cases hrefused.symm.trans hacc
  | refuse => cases hacc
  | adjust => exact .inr rfl
  | forward | collect | take | swap => exact .inl (UInt32.le_refl _)

theorem Step.total (hstep : Step l l') (hacc : l'.accepting = true)
    (h : l.total ≤ l.max.toNat) : l'.total ≤ l'.max.toNat :=
  hstep.within (hstep.frugal hacc) h

theorem Step.ok (hstep : Step l l') (h : l.Ok) : l'.Ok := by
  have hexact : l'.accepting = true → l'.total ≤ l'.max.toNat := by
    intro hacc
    refine hstep.total hacc (h.exact ?_)
    cases hstep <;> first | exact hacc | cases hacc
  refine ⟨hstep.balance h.conserved, hexact, ?_⟩
  have hbound := h.bounded
  cases hstep with
  | grant => simp [held, blank]
  | receive _ n hn hacc => exact Nat.le_trans (held_le_total _) (hexact hacc)
  | _ =>
    simp only [held] at hbound ⊢
    omega

theorem Steps.ok (hsteps : Steps l l') (h : l.Ok) : l'.Ok := by
  induction hsteps with
  | refl => exact h
  | tail _ hstep ih => exact hstep.ok ih

/-- The rules keep `P`. -/
def Stable (P : Ledger → Prop) : Prop := ∀ {l l' : Ledger}, Step l l' → P l → P l'

theorem stable_steps (l₀ : Ledger) : Stable (Steps l₀) := fun hstep h => h.tail hstep

/-- The rules keep `P` as long as the peer keeps to its credit. -/
def StableFrugal (P : Ledger → Prop) : Prop :=
  ∀ {l l' : Ledger}, Step l l' → Frugal l l' → P l → P l'

theorem Stable.frugal {P : Ledger → Prop} (hP : Stable P) : StableFrugal P :=
  fun hstep _ h => hP hstep h

/-! ## Whole messages -/

section Messages

variable {l : Ledger} {n : Nat}

theorem Ok.toNat_ofNat (h : l.Ok) (hn : n ≤ l.buffered) : (UInt32.ofNat n).toNat = n := by
  have hbound := h.bounded
  have hmax := l.max.toNat_lt
  simp only [held] at hbound
  exact UInt32.toNat_ofNat_of_lt (by rw [UInt32.size]; omega)

/-- What is held, without some of the bytes in the buffer -/
theorem held_split (hn : n ≤ l.buffered) :
    UInt32.ofNat l.held = UInt32.ofNat (l.buffered - n + l.waiting) + UInt32.ofNat n := by
  rw [← UInt32.ofNat_add]
  congr 1
  simp only [held]
  omega

/-- Some bytes are handed over, others stay. -/
theorem Ok.handOver (h : l.Ok) (hn : n ≤ l.buffered) :
    Ok { l with buffered := l.buffered - n, waiting := l.waiting + n } := by
  have hheld : held { l with buffered := l.buffered - n, waiting := l.waiting + n } = l.held := by
    simp only [held]
    omega
  refine ⟨?_, fun hacc => ?_, ?_⟩
  · rw [Ledger.balance, hheld]
    exact h.conserved
  · rw [Ledger.total, hheld]
    exact h.exact hacc
  · rw [hheld]
    exact h.bounded

/-- Bytes around a message are credited to the peer. -/
theorem Ok.credit (h : l.Ok) (hn : n ≤ l.buffered) :
    Ok { l with buffered := l.buffered - n, consumed := l.consumed + UInt32.ofNat n } := by
  have hbound := h.bounded
  have hn' := h.toNat_ofNat hn
  refine ⟨?_, fun hacc => ?_, ?_⟩
  · have hconserved := h.conserved
    simp only [Ledger.balance, held_split hn] at hconserved
    simp only [Ledger.balance, held]
    grind
  · have hexact := h.exact hacc
    simp only [Ledger.total, held] at hexact hbound ⊢
    rw [toNat_add_of_le l.max (by omega), hn']
    omega
  · simp only [held] at hbound ⊢
    omega

/-- Bytes around a message are not credited: from now on the peer has a smaller window. -/
theorem Ok.lose (h : l.Ok) (hn : n ≤ l.buffered) :
    Ok { l with buffered := l.buffered - n, max := l.max - UInt32.ofNat n } := by
  have hbound := h.bounded
  have hn' := h.toNat_ofNat hn
  have hmax : (l.max - UInt32.ofNat n).toNat = l.max.toNat - n := by
    simp only [held] at hbound
    rw [UInt32.toNat_sub_of_le _ _ (UInt32.le_iff_toNat_le.mpr (by omega)), hn']
  refine ⟨?_, fun hacc => ?_, ?_⟩
  · have hconserved := h.conserved
    simp only [Ledger.balance, held_split hn] at hconserved
    simp only [Ledger.balance, held]
    grind
  · have hexact := h.exact hacc
    rw [hmax]
    simp only [Ledger.total, held] at hexact hbound ⊢
    omega
  · rw [hmax]
    simp only [held] at hbound ⊢
    omega

end Messages

/-- The ledger of a smaller window. -/
def shrunk (lost : Nat) (l : Ledger) : Ledger := { l with max := l.max - UInt32.ofNat lost }

/-- Credit for `lost` bytes has been lost. -/
def Owes (lost : Nat) (l : Ledger) : Prop := (l.shrunk lost).Ok

theorem owes_blank : Owes 0 (blank accepting) := by
  have hnone : (blank accepting).shrunk 0 = blank accepting := by simp [shrunk, blank]
  rw [Owes, hnone]
  exact blank_ok accepting

theorem stable_owes (lost : Nat) : Stable (Owes lost) := by
  intro l l' hstep h
  cases hstep with
  | grant accepting w =>
    -- nothing has been lost on a blank ledger
    have hnone : UInt32.ofNat lost = 0 := by
      have hconserved := h.conserved
      simp only [shrunk, Ledger.balance, held, blank] at hconserved
      grind
    rw [Owes, shrunk, hnone, UInt32.sub_zero]
    exact (Step.grant accepting w).ok (blank_ok accepting)
  | receive _ n hn hacc => exact (Step.receive (l.shrunk lost) n hn hacc).ok h
  | discard _ n hacc => exact (Step.discard (l.shrunk lost) n hacc).ok h
  | refuse => exact (Step.refuse (l.shrunk lost)).ok h
  | forward => exact (Step.forward (l.shrunk lost)).ok h
  | collect => exact (Step.collect (l.shrunk lost)).ok h
  | take _ n hn => exact (Step.take (l.shrunk lost) n hn).ok h
  | swap => exact (Step.swap (l.shrunk lost)).ok h
  | adjust => exact (Step.adjust (l.shrunk lost)).ok h

theorem Owes.handOver {lost n : Nat} (h : Owes lost l) (hn : n ≤ l.buffered) :
    Owes lost { l with buffered := l.buffered - n, waiting := l.waiting + n } :=
  Ok.handOver h hn

theorem Owes.credit {lost n : Nat} (h : Owes lost l) (hn : n ≤ l.buffered) :
    Owes lost { l with buffered := l.buffered - n, consumed := l.consumed + UInt32.ofNat n } :=
  Ok.credit h hn

theorem Owes.lose {lost n : Nat} (h : Owes lost l) (hn : n ≤ l.buffered) :
    Owes (lost + n) { l with buffered := l.buffered - n } := by
  have hmax : l.max - UInt32.ofNat (lost + n) = l.max - UInt32.ofNat lost - UInt32.ofNat n := by
    rw [UInt32.ofNat_add]
    grind
  rw [Owes, shrunk, hmax]
  exact .lose h hn

end Ledger

end Shiesh.Lib
