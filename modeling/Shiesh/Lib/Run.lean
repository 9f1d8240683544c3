import Mathlib.Data.List.Induction

/-!
# Runs of Labelled Transition Systems

`Run Step q as q'` says that the labels `as` lead from `q` to `q'`. New labels are added
at the end, the way a log grows.
-/

namespace Shiesh.Lib

variable {Q A : Type} {Step : Q → A → Q → Prop} {q₀ q q' : Q} {as bs : List A} {a : A}

inductive Run (Step : Q → A → Q → Prop) (q₀ : Q) : List A → Q → Prop
  | nil : Run Step q₀ [] q₀
  | snoc {as : List A} {a : A} {q q' : Q} :
      Run Step q₀ as q → Step q a q' → Run Step q₀ (as ++ [a]) q'

namespace Run

/-- **Invariant rule**: what holds at the start and is kept by every step holds of every
run and the labels it has seen. -/
theorem invariant (Inv : List A → Q → Prop) (hstart : Inv [] q₀)
    (hstep : ∀ as q a q', Inv as q → Step q a q' → Inv (as ++ [a]) q')
    (h : Run Step q₀ as q) : Inv as q := by
  induction h with
  | nil => exact hstart
  | snoc _ hs ih => exact hstep _ _ _ _ ih hs

theorem snoc_inv (h : Run Step q₀ (as ++ [a]) q') : ∃ q, Run Step q₀ as q ∧ Step q a q' := by
  generalize hl : as ++ [a] = l at h
  cases h with
  | nil => simp at hl
  | snoc hr hs =>
    obtain ⟨rfl, ha⟩ := List.append_inj' hl rfl
    cases ha
    exact ⟨_, hr, hs⟩

theorem cut (h : Run Step q₀ (as ++ bs) q') : ∃ q, Run Step q₀ as q ∧ Run Step q bs q' := by
  induction bs using List.reverseRecOn generalizing q' with
  | nil => exact ⟨q', by simpa using h, nil⟩
  | append_singleton bs b ih =>
    rw [← List.append_assoc] at h
    obtain ⟨r, hr, hs⟩ := h.snoc_inv
    obtain ⟨q, h1, h2⟩ := ih hr
    exact ⟨q, h1, h2.snoc hs⟩

/-- The step taken at a position of a run. -/
theorem at_position (h : Run Step q₀ (as ++ a :: bs) q') :
    ∃ q r, Run Step q₀ as q ∧ Step q a r ∧ Run Step r bs q' := by
  have h' : Run Step q₀ ((as ++ [a]) ++ bs) q' := by simpa using h
  obtain ⟨r, h1, h2⟩ := h'.cut
  obtain ⟨q, h3, h4⟩ := h1.snoc_inv
  exact ⟨q, r, h3, h4, h2⟩

theorem eq_of_nil (h : Run Step q₀ [] q) : q = q₀ := by
  generalize hl : ([] : List A) = l at h
  cases h with
  | nil => rfl
  | snoc => simp at hl

/-- A state without steps ends every run. -/
theorem eq_nil_of_final (hfinal : ∀ a r, ¬ Step q a r) (h : Run Step q as q') : as = [] := by
  cases as with
  | nil => rfl
  | cons a as =>
    have h' : Run Step q ([] ++ a :: as) q' := h
    obtain ⟨r, r', h1, h2, -⟩ := h'.at_position
    rw [h1.eq_of_nil] at h2
    exact absurd h2 (hfinal a r')

end Run

end Shiesh.Lib
