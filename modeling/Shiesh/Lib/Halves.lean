import Mathlib.Data.List.Basic

/-!
# Queues in Two Halves

Messages are put into one half and taken from the other, and the halves are exchanged from
time to time. As long as the half that is read holds the older messages, what is taken is
what was put first. Right after an exchange it may be the other way round: the halves are
*crossed*, and nothing may be taken before they are exchanged again.
-/

namespace Shiesh.Lib

variable {α β : Type}

structure Halves (α : Type) where
  read : List α
  write : List α

namespace Halves

variable (crossed : Bool)

/-- The messages from the oldest to the newest. -/
def inOrder (crossed : Bool) (h : Halves α) : List α :=
  if crossed then h.write ++ h.read else h.read ++ h.write

def swap (h : Halves α) : Halves α := ⟨h.write, h.read⟩

def put (m : α) (h : Halves α) : Halves α := ⟨h.read, h.write ++ [m]⟩

@[simp] theorem inOrder_swap (h : Halves α) :
    h.swap.inOrder crossed = h.inOrder (!crossed) := by
  cases crossed <;> rfl

/-- Halves one of which is empty are crossed or not, as one likes. -/
theorem inOrder_of_read_nil {h : Halves α} (hread : h.read = []) (crossed : Bool) :
    h.inOrder crossed = h.write := by
  cases crossed <;> simp [inOrder, hread]

/-- A message comes last, unless the halves are crossed and there is one in the way. -/
theorem inOrder_put (h : Halves α) (m : α) (hread : crossed = true → h.read = []) :
    (h.put m).inOrder crossed = h.inOrder crossed ++ [m] := by
  cases crossed with
  | false => simp [inOrder, put]
  | true => simp [inOrder, put, hread rfl]

theorem inOrder_cons {h : Halves α} {m : α} {rest : List α} (hread : h.read = m :: rest) :
    h.inOrder false = m :: (Halves.mk rest h.write).inOrder false := by
  simp [inOrder, hread]

theorem inOrder_length (h : Halves α) :
    (h.inOrder crossed).length = h.read.length + h.write.length := by
  cases crossed with
  | false => simp [inOrder]
  | true => simp [inOrder, Nat.add_comm]

end Halves

end Shiesh.Lib
