import Mathlib.Data.Multiset.AddSub

/-!
# Resources

A program acquires resources and releases them. What it has done is a list, the latest first; what
it holds is what is left over. A resource that was acquired twice is held twice.

## Main results

- `Use.Lawful.release`: the rule for releasing
- `Use.Lawful.count`: when only what is held is released, everything that was acquired is either
  held or was released, each as often as it was acquired
-/

namespace Shiesh.Lib

inductive Use (ρ : Type) where
  | acquire (r : ρ)
  | release (r : ρ)
  deriving DecidableEq, Repr

namespace Use

variable {ρ : Type} [DecidableEq ρ]

/-- What is held after these uses -/
def held : List (Use ρ) → Multiset ρ
  | [] => 0
  | acquire r :: us => r ::ₘ held us
  | release r :: us => (held us).erase r

/-- Nothing is released that is not held. -/
def Lawful : List (Use ρ) → Prop
  | [] => True
  | acquire _ :: us => Lawful us
  | release r :: us => r ∈ held us ∧ Lawful us

instance decidableLawful : (us : List (Use ρ)) → Decidable (Lawful us)
  | [] => inferInstanceAs (Decidable True)
  | acquire _ :: us => decidableLawful us
  | release r :: us =>
    have := decidableLawful us
    inferInstanceAs (Decidable (r ∈ held us ∧ Lawful us))

variable {us : List (Use ρ)} {r : ρ} {m : Multiset ρ}

theorem held_acquire (r : ρ) (us : List (Use ρ)) : held (acquire r :: us) = r ::ₘ held us := rfl

/-- What is held can be released, and the rest stays. -/
theorem Lawful.release (h : Lawful us) (hheld : held us = r ::ₘ m) :
    Lawful (Use.release r :: us) ∧ held (Use.release r :: us) = m := by
  refine ⟨⟨?_, h⟩, ?_⟩
  · rw [hheld]
    exact Multiset.mem_cons_self r m
  · rw [held, hheld, Multiset.erase_cons_head]

/-- **Nothing is lost, and nothing is released twice.** -/
theorem Lawful.count (h : Lawful us) (r : ρ) :
    us.count (acquire r) = us.count (Use.release r) + (held us).count r := by
  induction us with
  | nil => rfl
  | cons u us ih =>
    cases u with
    | acquire r' =>
      have ih' := ih h
      by_cases hr : r' = r
      · subst hr
        rw [List.count_cons_self, List.count_cons_of_ne (by simp), held, Multiset.count_cons_self]
        omega
      · rw [List.count_cons_of_ne (by simp [hr]), List.count_cons_of_ne (by simp), held,
          Multiset.count_cons_of_ne (.symm hr)]
        exact ih'
    | release r' =>
      have ih' := ih h.2
      by_cases hr : r' = r
      · subst hr
        have hpos : 0 < (held us).count r' := Multiset.count_pos.mpr h.1
        rw [List.count_cons_of_ne (by simp), List.count_cons_self, held,
          Multiset.count_erase_self]
        omega
      · rw [List.count_cons_of_ne (by simp), List.count_cons_of_ne (by simp [hr]), held,
          Multiset.count_erase_of_ne (.symm hr)]
        exact ih'

end Use

end Shiesh.Lib
