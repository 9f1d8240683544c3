import Mathlib.Data.List.Infix

/-!
# Incremental Readers

A reader takes messages out of a byte stream that arrives in pieces: `feed` appends input
to its state, `poll` takes the next message when enough input is there. A poll that finds
no message may already have consumed input and kept partial results.

The laws of `Reader` say that a poll never depends on input beyond what it needs. From
them, `Reader.run_polls` shows that what a reader delivers is determined by the stream
alone, whatever the pieces are and whenever it is polled.
-/

namespace Shiesh.Lib

/-! ## §1 Traces -/

/-- A run of `step` from one state to another, with the labels of its steps. -/
inductive Trace {σ α : Type} (step : σ → α → σ → Prop) : σ → List α → σ → Prop
  | nil (s : σ) : Trace step s [] s
  | cons {s s' s'' : σ} {a : α} {as : List α} (first : step s a s')
      (rest : Trace step s' as s'') : Trace step s (a :: as) s''

namespace Trace

variable {σ α : Type} {step step' : σ → α → σ → Prop} {as : List α}

/-- Steps that keep an invariant, and are steps of another relation under it. -/
theorem imp (Inv : σ → Prop)
    (hstep : ∀ s a s', Inv s → step s a s' → step' s a s' ∧ Inv s') {s s' : σ}
    (hs : Inv s) (h : Trace step s as s') : Trace step' s as s' ∧ Inv s' := by
  induction h with
  | nil s => exact ⟨.nil s, hs⟩
  | cons hfirst _ ih =>
    obtain ⟨hfirst', hinv⟩ := hstep _ _ _ hs hfirst
    obtain ⟨hrest, hend⟩ := ih hinv
    exact ⟨.cons hfirst' hrest, hend⟩

/-- Two runs of a deterministic relation from one state: one continues the other. -/
theorem comparable
    (hdet : ∀ s a b s' s'', step s a s' → step s b s'' → a = b ∧ s' = s'') {s s' s'' : σ}
    {as bs : List α} (h : Trace step s as s') (h' : Trace step s bs s'') :
    (∃ cs, bs = as ++ cs ∧ Trace step s' cs s'') ∨ ∃ cs, as = bs ++ cs ∧ Trace step s'' cs s' := by
  induction h generalizing bs with
  | nil s => exact .inl ⟨bs, rfl, h'⟩
  | cons hfirst hrest ih =>
    cases h' with
    | nil => exact .inr ⟨_, rfl, .cons hfirst hrest⟩
    | cons hfirst' hrest' =>
      obtain ⟨rfl, rfl⟩ := hdet _ _ _ _ _ hfirst hfirst'
      rcases ih hrest' with ⟨cs, rfl, hcs⟩ | ⟨cs, rfl, hcs⟩
      · exact .inl ⟨cs, rfl, hcs⟩
      · exact .inr ⟨cs, rfl, hcs⟩

end Trace

/-! ## §2 Readers -/

/-- A poll-driven reader of messages `α` from a stream of `β`. -/
structure Reader (ε σ β α : Type) where
  feed : List β → σ → σ
  poll : EStateM ε σ (Option α)
  -- the states for which the laws hold
  Valid : σ → Prop
  feed_valid : ∀ {s} x, Valid s → Valid (feed x s)
  poll_valid : ∀ {s o s'}, Valid s → poll s = .ok o s' → Valid s'
  feed_nil : ∀ s, feed [] s = s
  feed_feed : ∀ x y s, feed y (feed x s) = feed (x ++ y) s
  -- more input changes no delivered message and does not undo a failure ..
  poll_some : ∀ {s a s'} x, Valid s → poll s = .ok (some a) s' →
    poll (feed x s) = .ok (some a) (feed x s')
  poll_error : ∀ {s e s'} x, Valid s → poll s = .error e s' →
    ∃ e' s'', poll (feed x s) = .error e' s''
  -- .. and a poll in vain can be forgotten
  poll_none : ∀ {s s'} x, Valid s → poll s = .ok none s' → poll (feed x s') = poll (feed x s)

/-- What happens to a reader: input arrives, or it is polled. -/
inductive Event (β : Type) where
  | chunk (b : List β)
  | poll
  deriving DecidableEq, Repr

/-- The stream that arrives during a sequence of events. -/
def Event.stream {β : Type} : List (Event β) → List β
  | [] => []
  | .chunk b :: es => b ++ Event.stream es
  | .poll :: es => Event.stream es

namespace Reader

variable {ε σ β α : Type} (R : Reader ε σ β α)

/-- The messages delivered during a sequence of events, and how it ended. -/
def run : List (Event β) → σ → List α × Except ε σ
  | [], s => ([], .ok s)
  | .chunk b :: es, s => run es (R.feed b s)
  | .poll :: es, s =>
    match R.poll s with
    | .ok (some a) s' => (a :: (run es s').1, (run es s').2)
    | .ok none s' => run es s'
    | .error e _ => ([], .error e)

/-- `Polls s as s'`: polling from `s` delivers exactly `as`, one message a poll. -/
def Polls : σ → List α → σ → Prop :=
  Trace fun s a s' => R.poll s = .ok (some a) s'

/-- The states cannot be told apart by feeding and polling. -/
def Equiv (s t : σ) : Prop := ∀ x, R.poll (R.feed x s) = R.poll (R.feed x t)

/-- How a run that ended with `r` relates to the state `s` of the reader that was given
the whole stream at once. -/
def EndsLike (r : Except ε σ) (s : σ) : Prop :=
  match r with
  | .ok t => R.Equiv t s
  | .error _ => ∃ e s', R.poll s = .error e s'

variable {R}

variable {s s' s'' t : σ} {es : List (Event β)}

theorem Polls.comparable {as bs : List α} (h : R.Polls s as s') (h' : R.Polls s bs s'') :
    (∃ cs, bs = as ++ cs ∧ R.Polls s' cs s'') ∨ ∃ cs, as = bs ++ cs ∧ R.Polls s'' cs s' := by
  apply Trace.comparable _ h h'
  intro s a b s' s'' ha hb
  rw [ha] at hb
  cases hb
  exact ⟨rfl, rfl⟩

theorem Equiv.feed (h : R.Equiv s t) (x : List β) : R.Equiv (R.feed x s) (R.feed x t) := by
  intro y
  rw [R.feed_feed, R.feed_feed]
  exact h (x ++ y)

theorem Equiv.poll (h : R.Equiv s t) : R.poll s = R.poll t := by
  have h0 := h []
  rwa [R.feed_nil, R.feed_nil] at h0

theorem Equiv.symm (h : R.Equiv s t) : R.Equiv t s :=
  fun x => (h x).symm

theorem equiv_of_poll_none (hs : R.Valid s) (h : R.poll s = .ok none s') : R.Equiv s' s :=
  fun x => R.poll_none x hs h

/-- Polls from an equivalent state deliver the same. -/
theorem Polls.of_equiv {r : Except ε σ} (h : R.Equiv t s)
    (hp : R.Polls s as s') (hr : R.EndsLike r s') : ∃ t', R.Polls t as t' ∧ R.EndsLike r t' := by
  cases hp with
  | nil =>
    refine ⟨t, .nil t, ?_⟩
    cases r with
    | ok u =>
      intro x
      exact (hr x).trans (h x).symm
    | error e =>
      obtain ⟨e', s', hs'⟩ := hr
      exact ⟨e', s', h.poll.trans hs'⟩
  | cons hpoll hrest => exact ⟨s', .cons (h.poll.trans hpoll) hrest, hr⟩

/-! ## §3 Fragmentation -/

/-- **Fragmentation**: a run delivers what polling the whole stream delivers, message by
message, and ends the way that polling would go on. -/
theorem run_polls (es : List (Event β)) (s : σ) (hs : R.Valid s) :
    ∃ s', R.Polls (R.feed (Event.stream es) s) (R.run es s).1 s' ∧
      R.EndsLike (R.run es s).2 s' := by
  induction es generalizing s with
  | nil =>
    refine ⟨s, ?_, fun x => rfl⟩
    have hfeed : R.feed (Event.stream []) s = s := R.feed_nil s
    rw [hfeed]
    exact .nil s
  | cons e es ih =>
    cases e with
    | chunk b =>
      have hfeed : R.feed (Event.stream (.chunk b :: es)) s =
          R.feed (Event.stream es) (R.feed b s) := (R.feed_feed b _ s).symm
      rw [hfeed]
      exact ih (R.feed b s) (R.feed_valid b hs)
    | poll =>
      simp only [run, Event.stream]
      cases hpoll : R.poll s with
      | error e t =>
        -- the failure does not go away when the rest of the stream is there
        obtain ⟨e', t', ht'⟩ := R.poll_error (Event.stream es) hs hpoll
        exact ⟨_, .nil _, e', t', ht'⟩
      | ok o s1 =>
        obtain ⟨s', hs', hend⟩ := ih s1 (R.poll_valid hs hpoll)
        cases o with
        | none =>
          have hequiv := (equiv_of_poll_none hs hpoll).feed (Event.stream es)
          exact hs'.of_equiv hequiv.symm hend
        | some a => exact ⟨s', Trace.cons (R.poll_some _ hs hpoll) hs', hend⟩

theorem run_append (fs : List (Event β)) (h : (R.run es s).2 = .ok t) :
    R.run (es ++ fs) s = ((R.run es s).1 ++ (R.run fs t).1, (R.run fs t).2) := by
  fun_induction R.run es s with
  | case1 s =>
    cases h
    rfl
  | case2 s es b ih => exact ih h
  | case3 s es a s' hpoll ih =>
    simp only [List.cons_append, run, hpoll, ih h]
  | case4 s es s' hpoll ih =>
    simp only [List.cons_append, run, hpoll, ih h]
  | case5 s es e s' hpoll => cases h

theorem run_valid (hs : R.Valid s)
    (h : (R.run es s).2 = .ok t) : R.Valid t := by
  fun_induction R.run es s with
  | case1 s =>
    cases h
    exact hs
  | case2 s es b ih => exact ih (R.feed_valid _ hs) h
  | case3 s es a s' hpoll ih => exact ih (R.poll_valid hs hpoll) h
  | case4 s es s' hpoll ih => exact ih (R.poll_valid hs hpoll) h
  | case5 s es e s' hpoll => cases h

/-- Nothing is left to deliver after `es`. -/
def Drained (R : Reader ε σ β α) (es : List (Event β)) (s : σ) : Prop :=
  (R.run (es ++ [.poll]) s).1 = (R.run es s).1

/-- Where a drained run ended, polling the whole stream does not go on. -/
theorem Drained.stuck (h : R.Drained es s)
    (hend : R.EndsLike (R.run es s).2 s') (a : α) (s'' : σ) : R.poll s' ≠ .ok (some a) s'' := by
  intro hpoll
  cases hrun : (R.run es s).2 with
  | error e =>
    rw [hrun] at hend
    obtain ⟨e', t, ht⟩ := hend
    rw [ht] at hpoll
    cases hpoll
  | ok t =>
    rw [hrun] at hend
    have ht : R.poll t = .ok (some a) s'' := (Equiv.poll hend).trans hpoll
    simp only [Drained, run_append [.poll] hrun, run, ht] at h
    simp at h

/-- **Independence of the pieces**: of two runs over one stream, one delivers a prefix of
what the other delivers. -/
theorem run_comparable (es fs : List (Event β)) (s : σ) (hs : R.Valid s)
    (h : Event.stream es = Event.stream fs) :
    (R.run es s).1 <+: (R.run fs s).1 ∨ (R.run fs s).1 <+: (R.run es s).1 := by
  obtain ⟨s1, h1, -⟩ := run_polls es s hs
  obtain ⟨s2, h2, -⟩ := run_polls fs s hs
  rw [← h] at h2
  rcases h1.comparable h2 with ⟨cs, hcs, -⟩ | ⟨cs, hcs, -⟩
  · exact .inl ⟨cs, hcs.symm⟩
  · exact .inr ⟨cs, hcs.symm⟩

/-- Two drained runs over one stream deliver the same. -/
theorem run_eq_of_drained (es fs : List (Event β)) (s : σ) (hs : R.Valid s)
    (h : Event.stream es = Event.stream fs) (hes : R.Drained es s) (hfs : R.Drained fs s) :
    (R.run es s).1 = (R.run fs s).1 := by
  obtain ⟨s1, h1, hend1⟩ := run_polls es s hs
  obtain ⟨s2, h2, hend2⟩ := run_polls fs s hs
  rw [← h] at h2
  rcases h1.comparable h2 with ⟨cs, hcs, hrest⟩ | ⟨cs, hcs, hrest⟩
  · cases hrest with
    | nil => simpa using hcs.symm
    | cons hpoll _ => exact absurd hpoll (hes.stuck hend1 _ _)
  · cases hrest with
    | nil => simpa using hcs
    | cons hpoll _ => exact absurd hpoll (hfs.stuck hend2 _ _)

/-- Polling often enough delivers everything that is there. -/
theorem run_replicate_poll (hs : R.Valid s)
    (h : R.Polls s as s') (hnone : R.poll s' = .ok none s'') (n : Nat) (hn : as.length ≤ n) :
    (R.run (List.replicate n .poll) s).1 = as := by
  induction n generalizing s s'' as s' with
  | zero =>
    obtain rfl : as = [] := List.eq_nil_of_length_eq_zero (Nat.le_zero.mp hn)
    rfl
  | succ n ih =>
    cases h with
    | nil =>
      -- a poll in vain, and so are all that follow
      have hagain : R.poll s'' = .ok none s'' := by
        rw [(equiv_of_poll_none hs hnone).poll, hnone]
      simp only [List.replicate_succ, run, hnone]
      exact ih (R.poll_valid hs hnone) (Trace.nil s'') hagain (Nat.zero_le n)
    | cons hpoll hrest =>
      simp only [List.replicate_succ, run, hpoll]
      rw [ih (R.poll_valid hs hpoll) hrest hnone (by simpa using hn)]

/-- **Complete delivery**: when polling the whole stream delivers `as` and then nothing,
every run over that stream delivers a prefix of `as`, and all of it with enough polls at
the end. -/
theorem run_complete {x : List β} (hs : R.Valid s)
    (h : R.Polls (R.feed x s) as s') (hnone : R.poll s' = .ok none s'')
    (es : List (Event β)) (hes : Event.stream es = x) :
    (R.run es s).1 <+: as ∧
      ∀ n, as.length ≤ n → (R.run (es ++ List.replicate n .poll) s).1 = as := by
  obtain ⟨t', ht', hend⟩ := run_polls es s hs
  rw [hes] at ht'
  -- the run stops somewhere on the way of `h`
  obtain ⟨rest, hrest, hpolls⟩ : ∃ rest, as = (R.run es s).1 ++ rest ∧ R.Polls t' rest s' := by
    rcases ht'.comparable h with ⟨cs, hcs, hpolls⟩ | ⟨cs, hcs, hpolls⟩
    · exact ⟨cs, hcs, hpolls⟩
    · cases hpolls with
      | nil => exact ⟨[], by simpa using hcs.symm, .nil _⟩
      | cons hpoll _ =>
        rw [hnone] at hpoll
        cases hpoll
  refine ⟨⟨rest, hrest.symm⟩, ?_⟩
  intro n hn
  cases hrun : (R.run es s).2 with
  | error e =>
    rw [hrun] at hend
    obtain ⟨e', u, hu⟩ := hend
    cases hpolls with
    | nil =>
      rw [hnone] at hu
      cases hu
    | cons hpoll _ =>
      rw [hu] at hpoll
      cases hpoll
  | ok t =>
    rw [hrun] at hend
    have hvalid : R.Valid t := run_valid hs hrun
    have hlength : rest.length ≤ n := by
      have := congrArg List.length hrest
      rw [List.length_append] at this
      omega
    obtain ⟨u, hu, hnone'⟩ : ∃ u, R.Polls t rest u ∧ ∃ u', R.poll u = .ok none u' := by
      cases hpolls with
      | nil => exact ⟨t, Trace.nil t, s'', hend.poll.trans hnone⟩
      | cons hpoll hrest => exact ⟨s', Trace.cons (hend.poll.trans hpoll) hrest, s'', hnone⟩
    obtain ⟨u', hu'⟩ := hnone'
    rw [run_append _ hrun]
    rw [run_replicate_poll hvalid hu hu' n hlength, ← hrest]

end Reader

end Shiesh.Lib
