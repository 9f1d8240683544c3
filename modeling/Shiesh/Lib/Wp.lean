import Mathlib.Data.List.Basic

/-!
# Weakest Preconditions for Stateful Code with Exceptions

`EStateM ε σ` keeps the state that was reached when an exception is thrown, as C++ code
does. `wp m Q E s` says how `m` may end when it is started in `s`: normally with `Q`, or
by an exception with `E`.
-/

namespace Shiesh.Lib
open List

variable {ε σ τ α β ι : Type}

/-! ## §1 The predicate and its equations -/

variable (m : EStateM ε σ α)

/-- `m` started in `s` ends normally with `Q` or throws with `E`. -/
def wp (Q : α → σ → Prop) (E : ε → σ → Prop) (s : σ) : Prop :=
  match m s with
  | .ok a s' => Q a s'
  | .error e s' => E e s'

/-- No exception is allowed. -/
abbrev never (_ : α) (_ : σ) : Prop := False

/-- Nothing is asked for. -/
abbrev any (_ : α) (_ : σ) : Prop := True

/-- The state in which `m` ends, either way. -/
def endState (s : σ) : σ :=
  match m s with
  | .ok _ s' => s'
  | .error _ s' => s'

/-- Whether `m` ends normally. -/
def returns (s : σ) : Bool :=
  match m s with
  | .ok _ _ => true
  | .error _ _ => false

variable {m : EStateM ε σ α} {Q Q' : α → σ → Prop} {E E' : ε → σ → Prop} {s s' : σ}
  {step : ι → EStateM ε σ Unit}

theorem returns_iff : returns m s = true ↔ ∃ a, m s = .ok a (endState m s) := by
  unfold returns endState
  cases m s <;> simp

theorem wp_endState (h : wp m Q E s) (hreturns : returns m s = true) : ∃ a, Q a (endState m s) := by
  obtain ⟨a, hok⟩ := returns_iff.mp hreturns
  unfold wp at h
  rw [hok] at h
  exact ⟨a, h⟩

variable {Inv P : σ → Prop} {done : σ → Bool} {C : ι → σ → Prop}
  {is js : List ι} {c : ι → σ → Bool}

/-- What holds however `m` ends -/
theorem wp_endState_both (h : wp m (fun _ => P) (fun _ => P) s) : P (endState m s) := by
  unfold wp at h
  unfold endState
  cases hm : m s <;> (rw [hm] at h; exact h)

/-- What cannot throw returns. -/
theorem returns_of_wp (h : wp m Q never s) : returns m s = true := by
  unfold wp at h
  unfold returns
  cases hm : m s with
  | ok a s' => rfl
  | error e s' =>
    rw [hm] at h
    exact h.elim

theorem wp_of_returns (h : wp m Q E s) (hreturns : returns m s = true) : wp m Q never s := by
  obtain ⟨a, hok⟩ := returns_iff.mp hreturns
  unfold wp at h ⊢
  rw [hok] at h ⊢
  exact h

theorem ok_endState {m : EStateM ε σ Unit} (h : returns m s = true) :
    m s = .ok () (endState m s) := by
  obtain ⟨_, hok⟩ := returns_iff.mp h
  exact hok

section Equations

variable {e : ε} {R : PUnit → σ → Prop} {n : EStateM ε σ α}

theorem wp_of_ok {a : α} (h : m s = .ok a s') : wp m Q E s ↔ Q a s' := by
  simp only [wp, h]

theorem wp_of_error (h : m s = .error e s') : wp m Q E s ↔ E e s' := by
  simp only [wp, h]

/-- To prove `wp` it is enough to look at the two ways `m` can end. -/
theorem wp_intro (hQ : ∀ a s', m s = .ok a s' → Q a s')
    (hE : ∀ e s', m s = .error e s' → E e s') : wp m Q E s := by
  unfold wp
  split
  · exact hQ _ _ ‹_›
  · exact hE _ _ ‹_›

theorem bind_of_ok {f : α → EStateM ε σ β} {a : α} (h : m s = .ok a s') : (m >>= f) s = f a s' := by
  simp only [bind, EStateM.bind, h]

theorem bind_of_error {f : α → EStateM ε σ β}
    (h : m s = .error e s') : (m >>= f) s = .error e s' := by
  simp only [bind, EStateM.bind, h]

@[simp] theorem wp_pure (a : α) : wp (pure a : EStateM ε σ α) Q E s ↔ Q a s := Iff.rfl

@[simp] theorem wp_throw (e : ε) : wp (throw e : EStateM ε σ α) Q E s ↔ E e s := Iff.rfl

@[simp] theorem wp_bind {Q' : β → σ → Prop} (m : EStateM ε σ α) (f : α → EStateM ε σ β) :
    wp (m >>= f) Q' E s ↔ wp m (fun a s' => wp (f a) Q' E s') E s := by
  cases h : m s with
  | ok a s' =>
    rw [wp_of_ok h]
    unfold wp
    rw [bind_of_ok h]
  | error e s' => rw [wp_of_error h, wp_of_error (bind_of_error h)]

@[simp] theorem wp_get {R : σ → σ → Prop} : wp (get : EStateM ε σ σ) R E s ↔ R s s := Iff.rfl

@[simp] theorem wp_set (s' : σ) : wp (set s' : EStateM ε σ PUnit) R E s ↔ R ⟨⟩ s' := Iff.rfl

@[simp] theorem wp_modify (f : σ → σ) :
    wp (modify f : EStateM ε σ PUnit) R E s ↔ R ⟨⟩ (f s) := Iff.rfl

theorem wp_read {f : σ → EStateM ε σ α} : wp (get >>= f) Q E s ↔ wp (f s) Q E s := wp_bind _ _

theorem wp_write (s' : σ) {f : PUnit → EStateM ε σ α} :
    wp (set s' >>= f) Q E s ↔ wp (f ⟨⟩) Q E s' := wp_bind _ _

theorem wp_update (g : σ → σ) {f : PUnit → EStateM ε σ α} :
    wp (modify g >>= f) Q E s ↔ wp (f ⟨⟩) Q E (g s) := wp_bind _ _

@[simp] theorem wp_tryCatch (m : EStateM ε σ α) (h : ε → EStateM ε σ α) :
    wp (tryCatch m h) Q E s ↔ wp m Q (fun e s' => wp (h e) Q E s') s := by
  cases hm : m s with
  | ok a s' =>
    rw [wp_of_ok hm, wp_of_ok (m := tryCatch m h)]
    simp only [tryCatch, tryCatchThe, MonadExceptOf.tryCatch, EStateM.tryCatch, hm]
  | error e s' =>
    rw [wp_of_error hm]
    unfold wp
    simp only [tryCatch, tryCatchThe, MonadExceptOf.tryCatch, EStateM.tryCatch, hm]
    rfl

theorem wp_ite (c : Prop) [Decidable c] (m n : EStateM ε σ α) :
    wp (if c then m else n) Q E s ↔ (c → wp m Q E s) ∧ (¬ c → wp n Q E s) := by
  by_cases h : c
  · simp [h]
  · simp [h]

/-- A branch of which only the condition matters -/
theorem wp_cond {c : Prop} [Decidable c] (hm : c → wp m Q E s) (hn : wp n Q E s) :
    wp (if c then m else n) Q E s := by
  split
  case isTrue h => exact hm h
  case isFalse => exact hn

end Equations

/-! ## §2 Consequence -/

theorem wp_mono (h : wp m Q E s) (hQ : ∀ a s', Q a s' → Q' a s') (hE : ∀ e s', E e s' → E' e s') :
    wp m Q' E' s := by
  unfold wp at h ⊢
  split at h
  · exact hQ _ _ h
  · exact hE _ _ h

theorem wp_and (h : wp m Q E s) (h' : wp m Q' E' s) :
    wp m (fun a s' => Q a s' ∧ Q' a s') (fun e s' => E e s' ∧ E' e s') s := by
  refine wp_intro (fun a s' hok => ?_) fun e s' herror => ?_
  · exact ⟨(wp_of_ok hok).mp h, (wp_of_ok hok).mp h'⟩
  · exact ⟨(wp_of_error herror).mp h, (wp_of_error herror).mp h'⟩

/-- Only the first says what is thrown. -/
theorem wp_and_mono {R : α → σ → Prop} (h : wp m Q E s) (h' : wp m Q' E' s)
    (hR : ∀ a s', Q a s' ∧ Q' a s' → R a s') : wp m R E s :=
  wp_mono (wp_and h h') hR fun _ _ he => he.1

/-- The consequence rule for a program that does not throw. -/
theorem wp_imp (h : wp m Q E s) (hQ : ∀ a s', Q a s' → Q' a s') : wp m Q' E s :=
  wp_mono h hQ fun _ _ he => he

/-- Nothing is asked of what is thrown. -/
theorem wp_weaken (h : wp m Q E s) (hQ : ∀ a s', Q a s' → Q' a s') : wp m Q' any s :=
  wp_mono h hQ fun _ _ _ => trivial

theorem wp_mono_total (h : wp m Q never s) (hQ : ∀ a s', Q a s' → Q' a s') : wp m Q' E s :=
  wp_mono h hQ fun _ _ hfalse => hfalse.elim

section Sequence

variable {f : α → EStateM ε σ β} {R : β → σ → Prop}

theorem wp_seq (h : wp m Q E s) (hf : ∀ a s', Q a s' → wp (f a) R E s') : wp (m >>= f) R E s :=
  (wp_bind m f).mpr (wp_imp h hf)

theorem wp_seq_total (h : wp m Q never s) (hf : ∀ a s', Q a s' → wp (f a) R E s') :
    wp (m >>= f) R E s :=
  (wp_bind m f).mpr (wp_mono_total h hf)

theorem wp_seq_any (h : wp m Q E s) (hf : ∀ a s', Q a s' → wp (f a) R any s') :
    wp (m >>= f) R any s :=
  (wp_bind m f).mpr (wp_weaken h hf)

end Sequence

theorem ok_of_wp_total (h : wp m Q never s) : ∃ a s', m s = .ok a s' ∧ Q a s' := by
  cases hm : m s with
  | ok a s' => exact ⟨a, s', rfl, (wp_of_ok hm).mp h⟩
  | error e s' => exact ((wp_of_error hm).mp h).elim

/-! ## §3 Fallible functions, and code on a part of the state -/

/-- Run a fallible function that does not touch the state. -/
def liftE (x : Except ε α) : EStateM ε σ α :=
  match x with
  | .ok a => pure a
  | .error e => throw e

theorem wp_liftE {x : Except ε α}
    (hQ : ∀ a, x = .ok a → Q a s) (hE : ∀ e, x = .error e → E e s) : wp (liftE x) Q E s := by
  cases x with
  | ok a => exact hQ a rfl
  | error e => exact hE e rfl

/-- Run `m` on the part of the state that `get` reads and `put` writes back, whether `m`
returns or throws. -/
def zoom (get : σ → τ) (put : τ → σ → σ) (m : EStateM ε τ α) : EStateM ε σ α :=
  fun s =>
    match m (get s) with
    | .ok a t => .ok a (put t s)
    | .error e t => .error e (put t s)

@[simp] theorem wp_zoom {get : σ → τ} {put : τ → σ → σ} {m : EStateM ε τ α} :
    wp (zoom get put m) Q E s ↔
      wp m (fun a t => Q a (put t s)) (fun e t => E e (put t s)) (get s) := by
  unfold wp zoom
  cases m (get s) <;> rfl

/-- As `zoom`, for code with other exceptions. -/
def zoomWith {ε' : Type} (exc : ε' → ε) (get : σ → τ) (put : τ → σ → σ)
    (m : EStateM ε' τ α) : EStateM ε σ α :=
  fun s =>
    match m (get s) with
    | .ok a t => .ok a (put t s)
    | .error e t => .error (exc e) (put t s)

@[simp] theorem wp_zoomWith {ε' : Type} {exc : ε' → ε} {get : σ → τ} {put : τ → σ → σ}
    {m : EStateM ε' τ α} :
    wp (zoomWith exc get put m) Q E s ↔
      wp m (fun a t => Q a (put t s)) (fun e t => E (exc e) (put t s)) (get s) := by
  unfold wp zoomWith
  cases m (get s) <;> rfl

-- From here on `wp` is taken apart by its equations only. Without this, elaborating a
-- `wp` of a closed program would run the program.
attribute [irreducible] wp

/-! ## §4 Feeding inputs -/

/-- Consume every input. -/
def runAll (step : ι → EStateM ε σ Unit) : List ι → EStateM ε σ Unit
  | [] => pure ()
  | i :: is => do
    step i
    runAll step is

/-- Consume inputs until `done` holds after a step; the inputs left over are returned. -/
def runUntil (step : ι → EStateM ε σ Unit) (done : σ → Bool) : List ι → EStateM ε σ (List ι)
  | [] => pure []
  | i :: is => do
    step i
    if done (← get) then pure is else runUntil step done is

theorem wp_runAll_append {Q : Unit → σ → Prop} (is js : List ι) (s : σ) :
    wp (runAll step (is ++ js)) Q E s ↔
      wp (runAll step is) (fun _ => wp (runAll step js) Q E) E s := by
  induction is generalizing s with
  | nil => rw [nil_append, runAll, wp_pure]
  | cons i is ih => simp only [cons_append, runAll, wp_bind, ih]

/-- **Invariant rule for `runAll`**: what every step keeps, over the inputs consumed so
far, holds at the end; when a step throws, its exceptional postcondition holds of the
inputs up to and including that one. -/
theorem wp_runAll (Inv : List ι → σ → Prop) (Err : List ι → ε → σ → Prop)
    (hstep : ∀ used i s, Inv used s →
      wp (step i) (fun _ => Inv (used ++ [i])) (Err (used ++ [i])) s)
    (is : List ι) (used : List ι) (s : σ) (h : Inv used s) :
    wp (runAll step is) (fun _ => Inv (used ++ is))
      (fun e s' => ∃ more rest, is = more ++ rest ∧ Err (used ++ more) e s') s := by
  induction is generalizing used s with
  | nil => simpa [runAll] using h
  | cons i is ih =>
    simp only [runAll, wp_bind]
    refine wp_mono (hstep used i s h) ?_ ?_
    · intro _ s' hs'
      refine wp_mono (ih (used ++ [i]) s' hs') ?_ ?_
      · intro _ s'' hs''
        simpa using hs''
      · rintro e s'' ⟨more, rest, rfl, herr⟩
        exact ⟨i :: more, rest, rfl, by simpa using herr⟩
    · intro e s' herr
      exact ⟨[i], is, rfl, herr⟩

/-- **Invariant rule for `runUntil`**: as `wp_runAll`, with a second assertion `Done` for
the state in which the loop is left. -/
theorem wp_runUntil (Inv Done : List ι → σ → Prop) (Err : List ι → ε → σ → Prop)
    (hstep : ∀ used i s, Inv used s →
      wp (step i)
        (fun _ s' => (done s' = true → Done (used ++ [i]) s') ∧
          (done s' = false → Inv (used ++ [i]) s'))
        (Err (used ++ [i])) s)
    (is : List ι) (used : List ι) (s : σ) (h : Inv used s) :
    wp (runUntil step done is)
      (fun rest s' => ∃ more, is = more ++ rest ∧
        (Done (used ++ more) s' ∨ (rest = [] ∧ Inv (used ++ more) s')))
      (fun e s' => ∃ more rest, is = more ++ rest ∧ Err (used ++ more) e s') s := by
  induction is generalizing used s with
  | nil =>
    simp only [runUntil, wp_pure]
    exact ⟨[], rfl, .inr ⟨trivial, by simpa using h⟩⟩
  | cons i is ih =>
    simp only [runUntil, wp_bind, wp_get]
    refine wp_mono (hstep used i s h) ?_ ?_
    · rintro _ s' ⟨hdone, hgo⟩
      by_cases hd : done s' = true
      · simp only [hd, if_true, wp_pure]
        exact ⟨[i], rfl, .inl (hdone hd)⟩
      · simp only [hd]
        refine wp_mono (ih (used ++ [i]) s' (hgo (by simpa using hd))) ?_ ?_
        · rintro rest s'' ⟨more, rfl, hend⟩
          refine ⟨i :: more, rfl, ?_⟩
          rcases hend with hend | ⟨hrest, hend⟩
          · exact .inl (by simpa using hend)
          · exact .inr ⟨hrest, by simpa using hend⟩
        · rintro e s'' ⟨more, rest, rfl, herr⟩
          exact ⟨i :: more, rest, rfl, by simpa using herr⟩
    · intro e s' herr
      exact ⟨[i], is, rfl, herr⟩

/-- Every step of the run is started in a state that meets the condition. -/
def Meets (step : ι → EStateM ε σ Unit) (C : ι → σ → Prop) : List ι → σ → Prop
  | [], _ => True
  | i :: is, s => C i s ∧
      match step i s with
      | .ok _ s' => Meets step C is s'
      | .error _ _ => True

instance Meets.decidable (step : ι → EStateM ε σ Unit) (C : ι → σ → Prop)
    [∀ i s, Decidable (C i s)] : ∀ is s, Decidable (Meets step C is s)
  | [], _ => isTrue trivial
  | i :: is, s =>
    match h : step i s with
    | .ok _ s' =>
      have : Decidable (Meets step C is s') := Meets.decidable step C is s'
      decidable_of_iff (C i s ∧ Meets step C is s') (by rw [Meets, h])
    | .error _ _ => decidable_of_iff (C i s) (by rw [Meets, h]; exact (and_iff_left trivial).symm)

theorem Meets.runAll_cons {i : ι} {R : Unit → σ → Prop} (h : Meets step C (i :: is) s)
    (hfirst : C i s → wp (step i) (fun _ => P) E s)
    (hrest : ∀ s', P s' → Meets step C is s' → wp (runAll step is) R E s') :
    wp (runAll step (i :: is)) R E s := by
  have hnext := hfirst h.1
  have htail := h.2
  rw [Lib.runAll, wp_bind]
  refine wp_intro (fun _ s' hok => ?_) fun _ _ herror => (wp_of_error herror).mp hnext
  rw [hok] at htail
  exact hrest s' ((wp_of_ok hok).mp hnext) htail

/-- **Invariant rule for runs under a condition**: what every step keeps that meets the
condition, such a run keeps. -/
theorem Meets.runAll {E : σ → Prop}
    (hstep : ∀ i s, Inv s → C i s → wp (step i)
      (fun _ => Inv) (fun _ => E) s) (h : Meets step C is s) (hs : Inv s) :
    wp (runAll step is) (fun _ => Inv) (fun _ => E) s := by
  induction is generalizing s with
  | nil =>
    rw [Lib.runAll, wp_pure]
    exact hs
  | cons i is ih => exact h.runAll_cons (hstep i s hs) fun _ hs' hrest => ih hrest hs'

/-- **Another condition along a run**: what an invariant and the condition of a step imply is true
of every step. -/
theorem Meets.carry {D : ι → σ → Prop} {E : σ → Prop}
    (hstep : ∀ i s, Inv s → C i s → wp (step i) (fun _ => Inv) (fun _ => E) s)
    (hD : ∀ i s, Inv s → C i s → D i s) (h : Meets step C is s) (hs : Inv s) :
    Meets step D is s := by
  induction is generalizing s with
  | nil => exact trivial
  | cons i is ih =>
    obtain ⟨hC, hrest⟩ := h
    refine ⟨hD i s hs hC, ?_⟩
    have hnext := hstep i s hs hC
    cases hr : step i s with
    | ok _ s' =>
      rw [hr] at hrest
      exact ih hrest ((wp_of_ok hr).mp hnext)
    | error _ _ => exact trivial

/-- **Invariant rule with the inputs used so far**, for runs under a condition. -/
theorem Meets.runAll_used {Inv : List ι → σ → Prop}
    (hstep : ∀ used i s, used ++ [i] <+: is → Inv used s → C i s →
      wp (step i) (fun _ => Inv (used ++ [i])) E s) (h : Meets step C is s) (hs : Inv [] s) :
    wp (Lib.runAll step is) (fun _ => Inv is) E s := by
  -- the induction is on the inputs that are left
  have hrest : ∀ (rest used : List ι) (s : σ), used ++ rest = is → Meets step C rest s →
      Inv used s → wp (Lib.runAll step rest) (fun _ => Inv is) E s := by
    intro rest
    induction rest with
    | nil =>
      intro used s hused _ hs
      rw [append_nil] at hused
      rw [Lib.runAll, wp_pure, ← hused]
      exact hs
    | cons i rest ih =>
      intro used s hused hmeets hs
      have hused' : used ++ [i] ++ rest = is := by
        rw [append_assoc]
        exact hused
      refine hmeets.runAll_cons (hstep used i s ⟨rest, hused'⟩ hs) fun s' hs' hafter => ?_
      exact ih (used ++ [i]) s' hused' hafter hs'
  exact hrest is [] s rfl h hs

/-- What is true of every input of a run, beside the condition of its steps -/
theorem Meets.restrict {P : ι → Prop} (h : Meets step C is s) (hP : ∀ i ∈ is, P i) :
    Meets step (fun i s => P i ∧ C i s) is s := by
  induction is generalizing s with
  | nil => exact trivial
  | cons i is ih =>
    obtain ⟨hC, hrest⟩ := h
    refine ⟨⟨hP i mem_cons_self, hC⟩, ?_⟩
    cases hr : step i s with
    | ok _ s' =>
      rw [hr] at hrest
      exact ih hrest fun j hj => hP j (mem_cons_of_mem _ hj)
    | error _ _ => exact trivial

/-- How many steps of the run are started in a state of which `c` is true. -/
def hits (step : ι → EStateM ε σ Unit) (c : ι → σ → Bool) : List ι → σ → Nat
  | [], _ => 0
  | i :: is, s => (if c i s then 1 else 0) +
      match step i s with
      | .ok _ s' => hits step c is s'
      | .error _ _ => 0

/-- **Invariant rule with a count**, for runs under a condition. -/
theorem Meets.runAll_hits {Inv E : Nat → σ → Prop}
    (hstep : ∀ n i s, Inv n s → C i s →
      wp (step i) (fun _ => Inv (n + if c i s then 1 else 0))
        (fun _ => E (n + if c i s then 1 else 0)) s) (n : Nat) (h : Meets step C is s)
        (hs : Inv n s) :
    wp (Lib.runAll step is) (fun _ => Inv (n + hits step c is s))
      (fun _ => E (n + hits step c is s)) s := by
  induction is generalizing n s with
  | nil =>
    rw [Lib.runAll, wp_pure]
    exact hs
  | cons i is ih =>
    rw [Lib.runAll, wp_bind]
    obtain ⟨hC, hrest⟩ := h
    have hnext := hstep n i s hs hC
    refine wp_intro (fun _ s' hok => ?_) fun _ s' herror => ?_
    · rw [hok] at hrest
      have htail := ih _ hrest ((wp_of_ok hok).mp hnext)
      rw [Nat.add_assoc] at htail
      simp only [hits, hok]
      exact htail
    · simp only [hits, herror, Nat.add_zero]
      exact (wp_of_error herror).mp hnext

theorem meets_append :
    Meets step C (is ++ js) s ↔
      Meets step C is s ∧ ∀ s', Lib.runAll step is s = .ok () s' → Meets step C js s' := by
  induction is generalizing s with
  | nil =>
    refine ⟨fun h => ⟨trivial, fun s' hs' => ?_⟩, fun h => h.2 s rfl⟩
    cases hs'
    exact h
  | cons i is ih =>
    rw [cons_append, Meets, Meets, and_assoc]
    refine and_congr_right fun _ => ?_
    cases hr : step i s with
    | ok _ s1 =>
      have hrun : Lib.runAll step (i :: is) s = Lib.runAll step is s1 := bind_of_ok hr
      rw [hrun]
      exact ih
    | error e s1 =>
      have hrun : Lib.runAll step (i :: is) s = .error e s1 := bind_of_error hr
      rw [hrun]
      exact ⟨fun _ => ⟨trivial, fun s' hs' => by cases hs'⟩, fun _ => trivial⟩

theorem meets_of_mem (h : ∀ i ∈ is, ∀ s, C i s) (s : σ) : Meets step C is s := by
  induction is generalizing s with
  | nil => exact trivial
  | cons i is ih =>
    refine ⟨h i mem_cons_self s, ?_⟩
    cases step i s with
    | ok _ s' => exact ih (fun j hj => h j (mem_cons_of_mem _ hj)) s'
    | error _ _ => exact trivial

/-- **Runs that miss a condition**: the first step that does not meet it leads to what every step
keeps from then on. -/
theorem wp_runAll_not_meets {Bad : σ → Prop}
    (hstep : ∀ i s, Inv s → C i s → wp (step i) (fun _ => Inv) any s)
    (hmiss : ∀ i s, Inv s → ¬C i s → wp (step i) (fun _ => Bad) any s)
    (hbad : ∀ i s, Bad s → wp (step i) (fun _ => Bad) any s) (h : ¬Meets step C is s) (hs : Inv s) :
    wp (runAll step is) (fun _ => Bad) any s := by
  induction is generalizing s with
  | nil => exact absurd trivial h
  | cons i is ih =>
    rw [Lib.runAll, wp_bind]
    by_cases hC : C i s
    · refine wp_intro (fun _ s' hok => ?_) fun _ _ _ => trivial
      rw [Meets, hok] at h
      exact ih (fun hrest => h ⟨hC, hrest⟩) ((wp_of_ok hok).mp (hstep i s hs hC))
    · refine wp_mono (hmiss i s hs hC) (fun _ s' hs' => ?_) fun _ _ _ => trivial
      have hall : Meets step any is s' := meets_of_mem (fun _ _ _ => trivial) s'
      exact hall.runAll (E := fun _ => True) (fun j s' hs' _ => hbad j s' hs') hs'

theorem Meets.runAll_append {Q : σ → Prop} (h : Meets step C (is ++ js) s)
    (hfirst : Meets step C is s → wp (Lib.runAll step is) (fun _ => P) E s)
    (hrest : ∀ s', P s' → Meets step C js s' → wp (Lib.runAll step js) (fun _ => Q) E s') :
    wp (Lib.runAll step (is ++ js)) (fun _ => Q) E s := by
  obtain ⟨his, hjs⟩ := meets_append.mp h
  rw [wp_runAll_append]
  have hdone := hfirst his
  refine wp_intro (fun _ s' hok => ?_) fun _ s' herror => (wp_of_error herror).mp hdone
  exact hrest s' ((wp_of_ok hok).mp hdone) (hjs s' hok)

/-- **Counting down**: when every round, a list of inputs, takes one from the number of rounds that
are left, then after that many rounds none is left. -/
theorem Meets.countdown {ρ : Type*} {events : ρ → List ι} {Inv : Nat → σ → Prop}
    (hmono : ∀ n s, Inv n s → Inv (n + 1) s) {rounds : List ρ}
    (hround : ∀ r ∈ rounds, ∀ n s, Inv (n + 1) s → Meets step C (events r) s →
      wp (Lib.runAll step (events r)) (fun _ => Inv n) E s)
    {n : Nat} (hs : Inv n s) (h : Meets step C (rounds.flatMap events) s) :
    wp (Lib.runAll step (rounds.flatMap events)) (fun _ => Inv (n - rounds.length)) E s := by
  induction rounds generalizing n s with
  | nil =>
    rw [flatMap_nil, Lib.runAll, wp_pure]
    exact hs
  | cons r rounds ih =>
    rw [flatMap_cons] at h ⊢
    have hnext : Inv (n - 1 + 1) s := by
      cases n with
      | zero => exact hmono 0 s hs
      | succ n => exact hs
    have hlength : n - (r :: rounds).length = n - 1 - rounds.length := by
      rw [length_cons]
      omega
    rw [hlength]
    refine h.runAll_append (hround r mem_cons_self _ s hnext) fun s' hs' hrest => ?_
    exact ih (fun r' hr' => hround r' (mem_cons_of_mem _ hr')) hs' hrest

theorem wp_runAll_hits (Inv : Nat → σ → Prop)
    (hstep : ∀ n i s, Inv n s →
      wp (step i) (fun _ => Inv (n + if c i s then 1 else 0)) any s)
    (is : List ι) (n : Nat) (s : σ) (hs : Inv n s) :
    wp (runAll step is) (fun _ => Inv (n + hits step c is s)) any s :=
  Meets.runAll_hits (C := fun _ _ => True) (E := fun _ _ => True) (fun n i s h _ => hstep n i s h) n
    (meets_of_mem (fun _ _ _ => trivial) s) hs

/-- As `hits`, for `runUntil`. -/
def hitsUntil (step : ι → EStateM ε σ Unit) (done : σ → Bool) (c : ι → σ → Bool) :
    List ι → σ → Nat
  | [], _ => 0
  | i :: is, s => (if c i s then 1 else 0) +
      match step i s with
      | .ok _ s' => if done s' then 0 else hitsUntil step done c is s'
      | .error _ _ => 0

/-- **Bounding a count**: the invariant bounds the steps counted so far, and the step that ends the
run, in whatever way, does not go beyond the bound. -/
theorem hitsUntil_le {Inv : Nat → σ → Prop} {bound : Nat} (hbound : ∀ n s, Inv n s → n ≤ bound)
    (hstep : ∀ n i s, Inv n s →
      n + (if c i s then 1 else 0) ≤ bound ∧
        wp (step i) (fun _ s' => done s' = false → Inv (n + if c i s then 1 else 0) s')
          any s)
    (is : List ι) (n : Nat) (s : σ) (hs : Inv n s) : n + hitsUntil step done c is s ≤ bound := by
  induction is generalizing n s with
  | nil => exact hbound n s hs
  | cons i is ih =>
    obtain ⟨hle, hnext⟩ := hstep n i s hs
    rw [hitsUntil]
    cases hr : step i s with
    | error e s' => exact hle
    | ok _ s' =>
      simp only
      cases hdone : done s' with
      | true => exact hle
      | false =>
        have htail := ih _ s' ((wp_of_ok hr).mp hnext hdone)
        rw [Nat.add_assoc] at htail
        exact htail

/-! ## §5 Programs that do not see a change of the state -/

def mapEnd (f : σ → σ) : EStateM.Result ε σ α → EStateM.Result ε σ α
  | .ok a s => .ok a (f s)
  | .error e s => .error e (f s)

/-- Running `m'` after the change `f` is running `m` and changing the state then. -/
def Mimics (f : σ → σ) (m m' : EStateM ε σ α) : Prop := ∀ s, m' (f s) = mapEnd f (m s)

/-- `m` does not see the change `f`. -/
def Commutes (f : σ → σ) (m : EStateM ε σ α) : Prop := Mimics f m m

theorem get_bind_apply (k : σ → EStateM ε σ α) (s : σ) :
    ((get : EStateM ε σ σ) >>= k) s = k s s := rfl

theorem modify_bind_apply (f : σ → σ) (k : PUnit → EStateM ε σ α) (s : σ) :
    ((modify f : EStateM ε σ PUnit) >>= k) s = k ⟨⟩ (f s) := rfl

theorem set_bind_apply (s' : σ) (k : PUnit → EStateM ε σ α) (s : σ) :
    ((set s' : EStateM ε σ PUnit) >>= k) s = k ⟨⟩ s' := rfl

namespace Mimics

variable {f : σ → σ} {m' : EStateM ε σ α}

theorem pure (a : α) : Mimics f (Pure.pure a : EStateM ε σ α) (Pure.pure a) := fun _ => rfl

theorem throw (e : ε) :
    Mimics f (MonadExcept.throw e : EStateM ε σ α) (MonadExcept.throw e) := fun _ => rfl

theorem set (s : σ) : Mimics f (MonadState.set s : EStateM ε σ PUnit) (MonadState.set (f s)) :=
  fun _ => rfl

theorem modify {g g' : σ → σ} (h : ∀ s, g' (f s) = f (g s)) :
    Mimics f (modify g : EStateM ε σ PUnit) (modify g') := by
  intro s
  show EStateM.Result.ok _ (g' (f s)) = EStateM.Result.ok _ (f (g s))
  rw [h]

theorem bind_at {k k' : α → EStateM ε σ β} (hm : m' (f s) = mapEnd f (m s))
    (hk : ∀ a s', m s = .ok a s' → k' a (f s') = mapEnd f (k a s')) :
    (m' >>= k') (f s) = mapEnd f ((m >>= k) s) := by
  cases h : m s with
  | ok a s' =>
    rw [h] at hm
    rw [bind_of_ok hm, bind_of_ok h, hk a s' h]
  | error e s' =>
    rw [h] at hm
    rw [bind_of_error hm, bind_of_error h]
    rfl

theorem bind {k k' : α → EStateM ε σ β} (hm : Mimics f m m')
    (hk : ∀ a, Mimics f (k a) (k' a)) : Mimics f (m >>= k) (m' >>= k') :=
  fun s => bind_at (hm s) fun a s' _ => hk a s'

theorem get_bind {k k' : σ → EStateM ε σ α} (hk : ∀ s, Mimics f (k s) (k' (f s))) :
    Mimics f (get >>= k) (get >>= k') :=
  fun s => hk s s

theorem ite {c : Prop} [Decidable c] {m' n n' : EStateM ε σ α} (hm : Mimics f m m')
    (hn : Mimics f n n') : Mimics f (if c then m else n) (if c then m' else n') := by
  split
  · exact hm
  · exact hn

theorem zoom {τ : Type} {get : σ → τ} {put : τ → σ → σ} (m : EStateM ε τ α)
    (hget : ∀ s, get (f s) = get s) (hput : ∀ t s, put t (f s) = f (put t s)) :
    Mimics f (zoom get put m) (zoom get put m) := by
  intro s
  simp only [Lib.zoom, hget]
  cases m (get s) with
  | ok a t => exact congrArg _ (hput t s)
  | error e t => exact congrArg _ (hput t s)

/-- **Runs**: it is enough that the steps after which the run goes on are mimicked. -/
theorem runUntil {step' : ι → EStateM ε σ Unit} {done : σ → Bool} (hdone : ∀ s, done (f s) = done s)
    (hstep : ∀ i s, done (endState (step i) s) = false →
      step' i (f s) = mapEnd f (step i s))
    (is : List ι) (s : σ) (hend : done (endState (runUntil step done is) s) = false) :
    Lib.runUntil step' done is (f s) = mapEnd f (Lib.runUntil step done is s) := by
  induction is generalizing s with
  | nil => rfl
  | cons i is ih =>
    cases hr : step i s with
    | error e s' =>
      have hstop : Lib.runUntil step done (i :: is) s = .error e s' := bind_of_error hr
      rw [endState, hstop] at hend
      have himage := hstep i s (by rw [endState, hr]; exact hend)
      rw [hr] at himage
      rw [hstop]
      exact bind_of_error himage
    | ok _ s' =>
      have hnext : Lib.runUntil step done (i :: is) s =
          if done s' then .ok is s' else Lib.runUntil step done is s' := by
        rw [Lib.runUntil, bind_of_ok hr, get_bind_apply]
        split <;> rfl
      -- after a step with which the run is done, the run would end in a state that is done
      have hgoes : done s' = false := by
        by_contra hstops
        rw [Bool.not_eq_false] at hstops
        rw [endState, hnext, if_pos hstops] at hend
        rw [hstops] at hend
        cases hend
      rw [hgoes, if_neg Bool.false_ne_true] at hnext
      have himage := hstep i s (by rw [endState, hr]; exact hgoes)
      rw [hr] at himage
      rw [endState, hnext] at hend
      rw [hnext, Lib.runUntil, bind_of_ok himage, get_bind_apply, hdone, hgoes,
        if_neg Bool.false_ne_true]
      exact ih s' hend

end Mimics

namespace Commutes

variable {f : σ → σ} {k : α → EStateM ε σ β}

theorem pure (a : α) : Commutes f (Pure.pure a : EStateM ε σ α) := Mimics.pure a

theorem modify {g : σ → σ} (h : ∀ s, g (f s) = f (g s)) :
    Commutes f (modify g : EStateM ε σ PUnit) :=
  Mimics.modify h

theorem bind (hm : Commutes f m)
    (hk : ∀ a, Commutes f (k a)) : Commutes f (m >>= k) :=
  Mimics.bind hm hk

theorem ite {c : Prop} [Decidable c] (hm : Commutes f m)
    (hn : Commutes f n) : Commutes f (if c then m else n) :=
  Mimics.ite hm hn

end Commutes

/-! ## §6 Programs that keep an invariant -/

/-- However `m` ends, it keeps `I`; when it throws, `E` is enough. -/
def Keeps (I : σ → Prop) (m : EStateM ε σ α) (E : σ → Prop := I) : Prop :=
  ∀ s, I s → wp m (fun _ => I) (fun _ => E) s

namespace Keeps

variable {I E : σ → Prop}

theorem pure (a : α) : Keeps I (Pure.pure a : EStateM ε σ α) E := fun _ h => by
  rw [wp_pure]
  exact h

theorem throw (e : ε) : Keeps I (MonadExcept.throw e : EStateM ε σ α) := fun _ h => by
  rw [wp_throw]
  exact h

theorem get : Keeps I (MonadState.get : EStateM ε σ σ) E := fun _ h => by
  rw [wp_get]
  exact h

theorem modify {f : σ → σ} (h : ∀ s, I s → I (f s)) :
    Keeps I (modify f : EStateM ε σ PUnit) E := fun s hs => by
  rw [wp_modify]
  exact h s hs

theorem liftE (x : Except ε α) : Keeps I (Lib.liftE x : EStateM ε σ α) :=
  fun _ hs => wp_liftE (fun _ _ => hs) fun _ _ => hs

theorem bind (hm : Keeps I m E)
    (hk : ∀ a, Keeps I (k a) E) : Keeps I (m >>= k) E := by
  intro s hs
  rw [wp_bind]
  exact wp_mono (hm s hs) (fun a s' hs' => hk a s' hs') fun _ _ hs' => hs'

theorem ite {c : Prop} [Decidable c] (hm : Keeps I m E)
    (hn : Keeps I n E) : Keeps I (if c then m else n) E := by
  split
  · exact hm
  · exact hn

theorem tryCatch {h : ε → EStateM ε σ α} (hm : Keeps I m)
    (hh : ∀ e, Keeps I (h e)) : Keeps I (tryCatch m h) := by
  intro s hs
  rw [wp_tryCatch]
  exact wp_mono (hm s hs) (fun _ _ hs' => hs') fun e s' hs' => hh e s' hs'

theorem mono {E' : σ → Prop} (hm : Keeps I m E) (h : ∀ s, E s → E' s) : Keeps I m E' :=
  fun s hs => wp_mono (hm s hs) (fun _ _ hs' => hs') fun _ s' hs' => h s' hs'

/-- A program that changes nothing stands in front. -/
theorem still_bind {Q : β → σ → Prop}
    (hm : Keeps (· = s) m) (hE : E s) (hk : ∀ a, wp (k a) Q (fun _ => E) s) :
    wp (m >>= k) Q (fun _ => E) s := by
  rw [wp_bind]
  refine wp_mono (hm s rfl) (fun a s' h => ?_) fun _ s' h => h ▸ hE
  rw [h]
  exact hk a

/-- A run whose inputs are all harmless -/
theorem runAll_mem {is : List ι}
    (hstep : ∀ i ∈ is, Keeps I (step i) E) : Keeps I (runAll step is) E := by
  induction is with
  | nil => exact .pure ()
  | cons i is ih =>
    refine (hstep i mem_cons_self).bind fun _ => ?_
    exact ih fun j hj => hstep j (mem_cons_of_mem _ hj)

theorem runAll (hstep : ∀ i, Keeps I (step i) E) (is : List ι) : Keeps I (runAll step is) E :=
  runAll_mem fun i _ => hstep i

theorem endState (hm : Keeps I m) (hs : I s) : I (endState m s) := by
  have h := hm s hs
  unfold Lib.endState
  cases hr : m s with
  | ok a s' => exact (wp_of_ok hr).mp h
  | error e s' => exact (wp_of_error hr).mp h

end Keeps

end Shiesh.Lib
