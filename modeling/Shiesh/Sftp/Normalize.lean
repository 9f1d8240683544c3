import Mathlib.Data.List.Induction
import Shiesh.Sftp.Path

/-!
# Normalization

`Path::normalize` keeps a stack of components. The stack says how many times to go up, and which
names to follow from there.
-/

namespace Shiesh.Sftp

def IsName (c : WString) : Prop := c ≠ point ∧ c ≠ point2

/-- Up, and then down along the names -/
structure Spot where
  ups : Nat
  names : List WString

variable {x : Spot} {c : WString} {path pre : List WString}

namespace Spot

def dirs (x : Spot) : List WString := List.replicate x.ups point2 ++ x.names

def Plain (x : Spot) : Prop := ∀ c ∈ x.names, IsName c

def step (x : Spot) (c : WString) : Spot :=
  if c = point then x
  else if c = point2 then
    if x.names = [] then ⟨x.ups + 1, []⟩ else ⟨x.ups, x.names.dropLast⟩
  else ⟨x.ups, x.names ++ [c]⟩

theorem step_ups_le (x : Spot) (c : WString) : x.ups ≤ (x.step c).ups := by
  rw [step]
  split <;> [skip; split <;> [split; skip]] <;> simp

/-- A name is an old one, or it has just come. -/
theorem mem_step {n : WString} (hn : n ∈ (x.step c).names) : n ∈ x.names ∨ n = c ∧ IsName n := by
  rw [step] at hn
  split at hn
  case isTrue => exact .inl hn
  case isFalse h1 =>
    split at hn
    case isTrue =>
      split at hn
      case isTrue => cases hn
      case isFalse => exact Or.inl (List.dropLast_subset _ hn)
    case isFalse h2 =>
      refine (List.mem_append.mp hn).imp_right fun hc => ?_
      rw [List.mem_singleton.mp hc]
      exact ⟨rfl, h1, h2⟩

theorem Plain.step (h : x.Plain) (c : WString) : (x.step c).Plain :=
  fun n hn => (mem_step hn).elim (h n) And.right

theorem step_name (hc : IsName c) : x.step c = ⟨x.ups, x.names ++ [c]⟩ := by
  rw [step, if_neg hc.1, if_neg hc.2]

theorem point2_ne_point : point2 ≠ point := by decide

end Spot

open Spot List

theorem normalizeStep_spot (h : x.Plain) : normalizeStep (x.dirs, decide (x.ups = 0)) c =
      ((x.step c).dirs, decide ((x.step c).ups = 0)) := by
  by_cases hc : IsName c
  · rw [step_name hc, normalizeStep, if_neg hc.1, if_neg hc.2, dirs, dirs, append_assoc]
  by_cases h1 : c = point
  · rw [normalizeStep, step, if_pos h1, if_pos h1]
  obtain rfl : c = point2 := by_contra fun h2 => hc ⟨h1, h2⟩
  obtain ⟨ups, names⟩ := x
  rcases eq_nil_or_concat names with rfl | ⟨ns, n, rfl⟩
  · -- nothing to go back to
    cases ups with
    | zero => simp [normalizeStep, step, dirs, point2_ne_point]
    | succ k =>
      simp [normalizeStep, step, dirs, point2_ne_point, getLast?_replicate,
        replicate_succ']
  · have hn : n ≠ point2 := (h n (by simp)).2
    simp [normalizeStep, step, dirs, point2_ne_point, hn, ← append_assoc]

/-- Where a list of components leads to -/
def spotOf (path : List WString) : Spot := path.foldl Spot.step ⟨0, []⟩

theorem foldl_spot (h : x.Plain) : path.foldl normalizeStep (x.dirs, decide (x.ups = 0)) =
        ((path.foldl step x).dirs, decide ((path.foldl step x).ups = 0)) ∧
      ∀ n ∈ (path.foldl step x).names, n ∈ x.names ∨ n ∈ path ∧ IsName n := by
  induction path generalizing x with
  | nil => exact ⟨rfl, fun n hn => .inl hn⟩
  | cons c path ih =>
    rw [foldl_cons, normalizeStep_spot h, foldl_cons]
    refine ⟨(ih (h.step c)).1, fun n hn => ?_⟩
    rcases (ih (h.step c)).2 n hn with hstep | ⟨hmem, hname⟩
    · refine (mem_step hstep).imp_right fun hc => ⟨?_, hc.2⟩
      rw [hc.1]
      exact mem_cons_self
    · exact .inr ⟨mem_cons_of_mem _ hmem, hname⟩

theorem plain_start : Spot.Plain ⟨0, []⟩ := fun _ hn => absurd hn not_mem_nil

theorem normalizeDirs_eq (path : List WString) :
    normalizeDirs path = ((spotOf path).dirs, decide ((spotOf path).ups = 0)) :=
  (foldl_spot plain_start).1

theorem spotOf_names {n : WString} (hn : n ∈ (spotOf path).names) : n ∈ path ∧ IsName n :=
  ((foldl_spot plain_start).2 n hn).resolve_left not_mem_nil

/-- **A successful normalization is clean**: its components are components of the input,
and none of them is `"."` or `".."`. -/
theorem normalizeDirs_clean (h : (normalizeDirs path).2 = true) :
    ∀ c ∈ (normalizeDirs path).1, c ∈ path ∧ c ≠ point ∧ c ≠ point2 := by
  rw [normalizeDirs_eq] at h ⊢
  have hups : (spotOf path).ups = 0 := of_decide_eq_true h
  intro c hc
  rw [dirs, hups, replicate_zero, nil_append] at hc
  exact spotOf_names hc

/-- Plain components are not changed. -/
theorem foldl_names (h : ∀ c ∈ path, IsName c) :
    path.foldl step x = ⟨x.ups, x.names ++ path⟩ := by
  induction path generalizing x with
  | nil => rw [foldl_nil, append_nil]
  | cons c path ih =>
    obtain ⟨hc, hpath⟩ := forall_mem_cons.mp h
    rw [foldl_cons, step_name hc, ih hpath, append_assoc, singleton_append]

theorem foldl_ups (j k : Nat) :
    (List.replicate k point2).foldl step ⟨j, []⟩ = ⟨j + k, []⟩ := by
  induction k generalizing j with
  | zero => rfl
  | succ k ih =>
    have hstep : step ⟨j, []⟩ point2 = ⟨j + 1, []⟩ := rfl
    rw [replicate_succ, foldl_cons, hstep, ih, Nat.add_right_comm, Nat.add_assoc]

theorem spotOf_dirs (h : x.Plain) : spotOf x.dirs = x := by
  rw [spotOf, dirs, foldl_append, foldl_ups, foldl_names h, Nat.zero_add, nil_append]

theorem normalizeDirs_names (h : ∀ c ∈ path, IsName c) : normalizeDirs path = (path, true) := by
  rw [normalizeDirs_eq, spotOf, foldl_names h]
  rfl

/-- What does not go up beyond its start can be followed from anywhere below. -/
theorem foldl_below (h : (path.foldl step x).ups = 0) :
    path.foldl step ⟨0, pre ++ x.names⟩ = ⟨0, pre ++ (path.foldl step x).names⟩ := by
  induction path generalizing x with
  | nil => rfl
  | cons c path ih =>
    have hmono : ∀ (path : List WString) (y : Spot), y.ups ≤ (path.foldl step y).ups := by
      intro path
      induction path with
      | nil => exact fun y => Nat.le_refl _
      | cons c path ih => exact fun y => Nat.le_trans (step_ups_le y c) (ih _)
    have hups : (x.step c).ups = 0 := Nat.le_zero.mp (h ▸ hmono path (x.step c))
    have hstep : step ⟨0, pre ++ x.names⟩ c = ⟨0, pre ++ (x.step c).names⟩ := by
      simp only [step] at hups ⊢
      split at hups <;> [skip; split at hups <;> [split at hups; skip]] <;>
        simp_all [dropLast_append_of_ne_nil]
    rw [foldl_cons, hstep]
    exact ih h

/-! ## Walking -/

/-- Places with a way to the parent and a way to every child -/
structure Places (L : Type*) where
  parent : L → L
  child : L → WString → L
  parent_child : ∀ l c, parent (child l c) = l

/-- A place is the names on the way to it, the last one first. -/
def Places.names : Places (List WString) where
  parent := List.tail
  child l c := c :: l
  parent_child _ _ := rfl

namespace Places

variable {L : Type*} (w : Places L)

def go (l : L) (c : WString) : L :=
  if c = point then l else if c = point2 then w.parent l else w.child l c

def walk (l : L) (path : List WString) : L := path.foldl w.go l

example : names.walk [] [[97], point, [98], point2, [99]] = [[99], [97]] := by decide

theorem walk_append (l : L) (a b : List WString) : w.walk l (a ++ b) = w.walk (w.walk l a) b :=
  foldl_append

theorem go_name (l : L) (hc : IsName c) : w.go l c = w.child l c := by
  rw [go, if_neg hc.1, if_neg hc.2]

theorem walk_step (h : x.Plain) (l : L) : w.walk l (x.step c).dirs = w.go (w.walk l x.dirs) c := by
  by_cases hc : IsName c
  · rw [step_name hc, dirs, ← append_assoc, walk_append]
    rfl
  by_cases h1 : c = point
  · rw [step, if_pos h1, go, if_pos h1]
  obtain rfl : c = point2 := by_contra fun h2 => hc ⟨h1, h2⟩
  obtain ⟨ups, names⟩ := x
  rcases eq_nil_or_concat names with rfl | ⟨ns, n, rfl⟩
  · have hstep : step ⟨ups, []⟩ point2 = ⟨ups + 1, []⟩ := rfl
    rw [hstep, dirs, dirs, append_nil, append_nil, replicate_succ', walk_append]
    rfl
  · have hstep : step ⟨ups, ns ++ [n]⟩ point2 = ⟨ups, ns⟩ := by
      simp [step, point2_ne_point]
    have hup : ∀ l, w.go l point2 = w.parent l := fun _ => rfl
    have hdown : w.walk l (dirs ⟨ups, ns ++ [n]⟩) = w.child (w.walk l (dirs ⟨ups, ns⟩)) n := by
      rw [dirs, ← append_assoc, walk_append]
      exact w.go_name _ (h n (by simp))
    rw [concat_eq_append, hstep, hup, hdown, w.parent_child]

theorem walk_spotOf (l : L) (path : List WString) :
    w.walk l (spotOf path).dirs = w.walk l path := by
  induction path using reverseRecOn with
  | nil => rfl
  | append_singleton path c ih =>
    rw [spotOf, foldl_append, foldl_cons, foldl_nil, walk_append, ← ih]
    exact w.walk_step (fun n hn => (spotOf_names hn).2) l

end Places

/-- **`Path::normalize`**: ".." comes first or not at all, the result says which; normalizing again
changes nothing, names in front do not matter, and the place is the same. -/
theorem normalize_spec (p : Path) :
    let q := p.normalize.1
    let normalized := p.normalize.2
    (∃ ups names, q.path = List.replicate ups point2 ++ names ∧ ∀ c ∈ names, IsName c) ∧
    (normalized = true ↔ point2 ∉ q.path) ∧ q.normalize = (q, normalized) ∧
    (normalized = true → ∀ pre, (∀ c ∈ pre, IsName c) →
      Path.normalize { p with path := pre ++ p.path } = ({ p with path := pre ++ q.path }, true)) ∧
    ∀ {L : Type*} (w : Places L) (l : L), w.walk l q.path = w.walk l p.path := by
  have hplain : (spotOf p.path).Plain := fun n hn => (spotOf_names hn).2
  simp only [Path.normalize, normalizeDirs_eq, spotOf_dirs hplain, decide_eq_true_eq]
  refine ⟨⟨_, _, rfl, hplain⟩, ⟨fun hups hmem => ?_,
    fun hno => ?_⟩, trivial, fun hups pre hpre => ?_,
    fun w l => w.walk_spotOf l p.path⟩
  · rw [dirs, hups, replicate_zero, nil_append] at hmem
    exact (hplain _ hmem).2 rfl
  · by_contra hups
    exact hno (mem_append_left _ (mem_replicate.mpr ⟨hups, rfl⟩))
  · have hspot : spotOf (pre ++ p.path) = ⟨0, pre ++ (spotOf p.path).names⟩ := by
      rw [spotOf, foldl_append, foldl_names hpre, nil_append, ← append_nil pre]
      rw [foldl_below (x := ⟨0, []⟩) hups, append_nil]
      rfl
    rw [hspot, dirs, dirs, hups]
    rfl

end Shiesh.Sftp
