import Shiesh.Basic

/-!
# Patterns

`match_pattern` and `match_pattern_list` of `match.cpp`. A C string is the list of its
bytes in front of the NUL.
-/

namespace Shiesh.Match
open List

def asterisk : UInt8 := 0x2a

def questionMark : UInt8 := 0x3f

/-! ## §1 match_pattern -/

/-- The loops `for (; *s; s++) if (f) return 1; return 0` -/
def anyFrom (f : UInt8 → Bytes → Bool) : Bytes → Bool
  | [] => false
  | x :: s => f x s || anyFrom f s

def matchPattern (s : Bytes) : (pattern : Bytes) → Bool
  | [] => s.isEmpty
  | c :: pattern =>
    if c = asterisk then
      match pattern with
      | [] => true
      | d :: rest =>
        if d ≠ questionMark ∧ d ≠ asterisk then
          anyFrom (fun x s => x = d && matchPattern s rest) s
        else
          anyFrom (fun x s => matchPattern (x :: s) (d :: rest)) s
    else
      match s with
      | [] => false
      | x :: s => if c ≠ questionMark ∧ c ≠ x then false else matchPattern s pattern

theorem anyFrom_iff {f : UInt8 → Bytes → Bool} {s : Bytes} :
    anyFrom f s = true ↔ ∃ u x t, s = u ++ x :: t ∧ f x t = true := by
  induction s with
  | nil => simp [anyFrom]
  | cons y s ih =>
    rw [anyFrom, Bool.or_eq_true, ih]
    constructor
    · rintro (h | ⟨u, x, t, rfl, h⟩)
      · exact ⟨[], y, s, rfl, h⟩
      · exact ⟨y :: u, x, t, rfl, h⟩
    · rintro ⟨_ | ⟨z, u⟩, x, t, heq, h⟩
      · cases heq
        exact .inl h
      · cases heq
        exact .inr ⟨u, x, t, rfl, h⟩

theorem matchPattern_cons {c x : UInt8} (hc : c ≠ asterisk) (s pattern : Bytes) :
    matchPattern (x :: s) (c :: pattern) =
      if c ≠ questionMark ∧ c ≠ x then false else matchPattern s pattern := by
  cases pattern <;> exact if_neg hc

theorem matchPattern_nil_cons {c : UInt8} (hc : c ≠ asterisk) (pattern : Bytes) :
    matchPattern [] (c :: pattern) = false := by
  cases pattern <;> exact if_neg hc

/-- Both loops behind an asterisk look for a place where the rest of the pattern matches;
the end of the string is not one of them. -/
theorem matchPattern_asterisk {pattern : Bytes} (hne : pattern ≠ []) (s : Bytes) :
    matchPattern s (asterisk :: pattern) =
      anyFrom (fun x s => matchPattern (x :: s) pattern) s := by
  cases pattern with
  | nil => exact absurd rfl hne
  | cons d rest =>
    refine (if_pos rfl).trans ?_
    by_cases hd : d ≠ questionMark ∧ d ≠ asterisk
    · refine (if_pos hd).trans (congrArg (anyFrom · s) (funext fun x => funext fun t => ?_))
      rw [matchPattern_cons hd.2]
      by_cases hx : x = d
      · simp [hx]
      · simp [hx, hd.1, Ne.symm hx]
    · exact if_neg hd

/-! ## §2 The language of a pattern -/

/-- The strings that one character of a pattern stands for. -/
def Letter (c : UInt8) (u : Bytes) : Prop :=
  c = asterisk ∨ ∃ x, u = [x] ∧ (c = questionMark ∨ c = x)

/-- The language of a pattern. -/
def Glob : (pattern : Bytes) → Bytes → Prop
  | [], s => s = []
  | c :: pattern, s => ∃ u t, s = u ++ t ∧ Letter c u ∧ Glob pattern t

/-- Only asterisks match the empty string. -/
theorem endsInTwo_of_glob_nil {pattern : Bytes} (h : Glob pattern []) (hne : pattern ≠ []) :
    ∃ r, asterisk :: pattern = r ++ [asterisk, asterisk] := by
  induction pattern with
  | nil => exact absurd rfl hne
  | cons c pattern ih =>
    obtain ⟨u, t, heq, hu, ht⟩ := h
    obtain ⟨rfl, rfl⟩ := append_eq_nil_iff.mp heq.symm
    rcases hu with rfl | ⟨x, hx, _⟩
    · by_cases hp : pattern = []
      · exact ⟨[], by rw [hp]; rfl⟩
      · obtain ⟨r, hr⟩ := ih ht hp
        exact ⟨asterisk :: r, congrArg (asterisk :: ·) hr⟩
    · cases hx

/-! ## §3 Which strings match -/

theorem matchPattern_sound {s pattern : Bytes} (h : matchPattern s pattern = true) :
    Glob pattern s := by
  induction pattern generalizing s with
  | nil => exact isEmpty_iff.mp h
  | cons c pattern ih =>
    by_cases hc : c = asterisk
    · subst hc
      by_cases hp : pattern = []
      · subst hp
        exact ⟨s, [], (append_nil s).symm, .inl rfl, rfl⟩
      · rw [matchPattern_asterisk hp] at h
        obtain ⟨u, x, t, rfl, hm⟩ := anyFrom_iff.mp h
        exact ⟨u, x :: t, rfl, .inl rfl, ih hm⟩
    · cases s with
      | nil =>
        rw [matchPattern_nil_cons hc] at h
        cases h
      | cons x s =>
        rw [matchPattern_cons hc] at h
        split at h
        · cases h
        · rename_i hx
          exact ⟨[x], s, rfl, .inr ⟨x, rfl, by grind⟩, ih h⟩

theorem matchPattern_complete {s pattern : Bytes}
    (hend : ¬∃ r, pattern = r ++ [asterisk, asterisk]) (h : Glob pattern s) :
    matchPattern s pattern = true := by
  induction pattern generalizing s with
  | nil => exact isEmpty_iff.mpr h
  | cons c pattern ih =>
    obtain ⟨u, t, rfl, hu, ht⟩ := h
    have hm : matchPattern t pattern = true :=
      ih (fun ⟨r, hr⟩ => hend ⟨c :: r, congrArg (c :: ·) hr⟩) ht
    by_cases hc : c = asterisk
    · subst hc
      by_cases hp : pattern = []
      · rw [hp]
        rfl
      · rw [matchPattern_asterisk hp, anyFrom_iff]
        cases t with
        | nil => exact absurd (endsInTwo_of_glob_nil ht hp) hend
        | cons x t => exact ⟨u, x, t, rfl, hm⟩
    · obtain ⟨x, rfl, hx⟩ := hu.resolve_left hc
      rw [singleton_append, matchPattern_cons hc, if_neg (by grind), hm]

/-- Two asterisks at the end stand for at least one character. -/
theorem matchPattern_two (s r : Bytes) :
    matchPattern s (r ++ [asterisk, asterisk]) =
      matchPattern s (r ++ [questionMark, asterisk]) := by
  induction r generalizing s with
  | nil => cases s <;> rfl
  | cons c r ih =>
    rw [cons_append, cons_append]
    by_cases hc : c = asterisk
    · rw [hc, matchPattern_asterisk (by simp), matchPattern_asterisk (by simp)]
      exact congrArg (anyFrom · s) (funext fun x => funext fun t => ih (x :: t))
    · cases s with
      | nil => rw [matchPattern_nil_cons hc, matchPattern_nil_cons hc]
      | cons x s => rw [matchPattern_cons hc, matchPattern_cons hc, ih]

/-- `match_pattern` accepts the language of the pattern, but two asterisks at the end do
not match the empty string. -/
theorem matchPattern_iff_glob (s pattern : Bytes) :
    (matchPattern s pattern = true ↔ Glob pattern s) ↔
      ∀ r, pattern = r ++ [asterisk, asterisk] → Glob pattern s →
        Glob (r ++ [questionMark, asterisk]) s := by
  constructor
  · rintro h r rfl hs
    apply matchPattern_sound
    rw [← matchPattern_two]
    exact h.mpr hs
  · intro h
    refine ⟨matchPattern_sound, fun hs => ?_⟩
    by_cases hend : ∃ r, pattern = r ++ [asterisk, asterisk]
    · obtain ⟨r, rfl⟩ := hend
      rw [matchPattern_two]
      refine matchPattern_complete (fun ⟨t, ht⟩ => ?_) (h r rfl hs)
      exact absurd (append_inj' ht rfl).2 (by decide)
    · exact matchPattern_complete hend hs

/-- `match_pattern ("", "**")` is 0. -/
theorem matchPattern_empty_two : matchPattern [] (ascii "**") = false ∧ Glob (ascii "**") [] :=
  ⟨by decide, [], [], rfl, .inl rfl, [], [], rfl, .inl rfl, rfl⟩

/-! ## §4 match_pattern_list -/

def comma : UInt8 := 0x2c

def exclamationMark : UInt8 := 0x21

variable (pattern : Bytes)

def negated : Bool := pattern.head? = some exclamationMark

def skipNegation : Bytes := if negated pattern then pattern.tail else pattern

/-- `isupper` and `tolower` in the C locale -/
def lower (dolower : Bool) (c : UInt8) : UInt8 :=
  if dolower && 0x41 ≤ c && c ≤ 0x5a then c + 0x20 else c

def sizeofSub : Nat := 1024

/-- What goes to `sub`, before its case is changed. -/
def subpattern : Bytes :=
  ((skipNegation pattern).takeWhile (· ≠ comma)).take (sizeofSub - 1)

/-- What is left for the next turn of the loop. -/
def afterSub : Bytes :=
  let rest := (skipNegation pattern).drop (subpattern pattern).length
  if rest.head? = some comma then rest.tail else rest

/-- The loop; every turn takes a character. -/
def matchElements (string : Bytes) (dolower : Bool) : Nat → Bool → Bytes → Int
  | 0, gotPositive, _ | _, gotPositive, [] => if gotPositive then 1 else 0
  | fuel + 1, gotPositive, pattern =>
    let sub := subpattern pattern
    -- "If subpattern too long, return failure (no match)."
    if sub.length ≥ sizeofSub - 1 then
      0
    else if matchPattern string (cstr (sub.map (lower dolower))) then
      if negated pattern then -1 else matchElements string dolower fuel true (afterSub pattern)
    else
      matchElements string dolower fuel gotPositive (afterSub pattern)

def matchPatternList (string pattern : Bytes) (dolower : Bool) : Int :=
  matchElements string dolower pattern.length false pattern

/-- The elements of a list; a comma at its end is not followed by another one. -/
def elements : List Bytes :=
  let parts := pattern.splitOn comma
  if parts.getLast? = some [] then parts.dropLast else parts

/-- The end of an element: the end of the list or a comma. -/
def EndsElement (rest : Bytes) : Prop := rest = [] ∨ ∃ more, rest = comma :: more

theorem exists_element :
    ∃ e rest, pattern = e ++ rest ∧ comma ∉ e ∧ EndsElement rest := by
  induction pattern with
  | nil => exact ⟨[], [], rfl, not_mem_nil, .inl rfl⟩
  | cons c pattern ih =>
    by_cases hc : c = comma
    · exact ⟨[], c :: pattern, rfl, not_mem_nil, .inr ⟨pattern, hc ▸ rfl⟩⟩
    · obtain ⟨e, rest, rfl, he, hrest⟩ := ih
      exact ⟨c :: e, rest, rfl, by simp [Ne.symm hc, he], hrest⟩

theorem elements_cons {e rest : Bytes} (hc : comma ∉ e) (hend : EndsElement rest)
    (hne : e ++ rest ≠ []) : elements (e ++ rest) = e :: elements rest.tail := by
  have hnot : ∀ x ∈ e, (x == comma) = false := fun x hx =>
    beq_false_of_ne fun h => hc (h ▸ hx)
  rcases hend with rfl | ⟨more, rfl⟩
  · rw [append_nil] at hne ⊢
    have hparts : e.splitOn comma = [e] := splitOnP_eq_singleton hnot
    rw [elements, hparts]
    exact if_neg fun h => hne (Option.some.inj h)
  · have hparts : (e ++ comma :: more).splitOn comma = e :: more.splitOn comma :=
      splitOnP_append_cons_of_forall_mem hnot comma (beq_self_eq_true comma) more
    obtain ⟨p, ps, hp⟩ := exists_cons_of_ne_nil (splitOn_ne_nil comma more)
    rw [tail_cons, elements, elements, hparts, hp]
    simp only [getLast?_cons_cons, dropLast_cons_cons]
    split <;> rfl

theorem skipNegation_append (e : Bytes) {rest : Bytes} (hend : EndsElement rest) :
    negated (e ++ rest) = negated e ∧ skipNegation (e ++ rest) = skipNegation e ++ rest := by
  cases e with
  | nil => rcases hend with rfl | ⟨more, rfl⟩ <;> exact ⟨rfl, rfl⟩
  | cons c e =>
    have hneg : negated (c :: e ++ rest) = negated (c :: e) := rfl
    rw [skipNegation, skipNegation, hneg]
    refine ⟨rfl, ?_⟩
    split <;> rfl

/-- An element that fits in `sub` is read to its end. -/
theorem turn_element {e rest : Bytes} (hc : comma ∉ e) (hend : EndsElement rest)
    (hlen : e.length < sizeofSub - 1) :
    subpattern (e ++ rest) = skipNegation e ∧ afterSub (e ++ rest) = rest.tail := by
  have hsub : ∀ x ∈ skipNegation e, (x ≠ comma : Bool) = true := by
    intro x hx
    have hmem : x ∈ e := by
      rw [skipNegation] at hx
      split at hx
      · exact mem_of_mem_tail hx
      · exact hx
    exact decide_eq_true fun h => hc (h ▸ hmem)
  have hshort : (skipNegation e).length ≤ sizeofSub - 1 := by
    rw [skipNegation, apply_ite length, length_tail]
    split <;> omega
  have hstop : rest.takeWhile (· ≠ comma) = [] := by
    rcases hend with rfl | ⟨more, rfl⟩ <;> rfl
  have hsubpattern : subpattern (e ++ rest) = skipNegation e := by
    rw [subpattern, (skipNegation_append e hend).2, takeWhile_append_of_pos hsub, hstop,
      append_nil, take_of_length_le hshort]
  refine ⟨hsubpattern, ?_⟩
  rw [afterSub, hsubpattern, (skipNegation_append e hend).2, drop_left]
  rcases hend with rfl | ⟨more, rfl⟩ <;> rfl

/-- Does `match_pattern` accept an element without its exclamation mark? -/
def elementMatches (string : Bytes) (dolower : Bool) (e : Bytes) : Bool :=
  matchPattern string (cstr ((skipNegation e).map (lower dolower)))

/-- A negated element that matches decides, then any other one that does. -/
def verdict (string : Bytes) (dolower gotPositive : Bool) (es : List Bytes) : Int :=
  if ∃ e ∈ es, negated e ∧ elementMatches string dolower e then -1
  else if gotPositive ∨ ∃ e ∈ es, ¬negated e ∧ elementMatches string dolower e then 1
  else 0

theorem verdict_cons (string : Bytes) (dolower gotPositive : Bool) (e : Bytes) (es : List Bytes) :
    verdict string dolower gotPositive (e :: es) =
      if elementMatches string dolower e then
        if negated e then -1 else verdict string dolower true es
      else verdict string dolower gotPositive es := by
  simp only [verdict, mem_cons, exists_eq_or_imp]
  cases negated e <;> cases elementMatches string dolower e <;> simp

theorem matchElements_eq (string : Bytes) (dolower : Bool) {fuel : Nat} {pattern : Bytes}
    (gotPositive : Bool) (hfuel : pattern.length ≤ fuel)
    (hlen : ∀ e ∈ elements pattern, e.length < sizeofSub - 1) :
    matchElements string dolower fuel gotPositive pattern =
      verdict string dolower gotPositive (elements pattern) := by
  induction fuel generalizing pattern gotPositive with
  | zero =>
    rw [eq_nil_of_length_eq_zero (Nat.le_zero.mp hfuel)]
    simp [matchElements, verdict, elements]
  | succ fuel ih =>
    by_cases hne : pattern = []
    · rw [hne]
      simp [matchElements, verdict, elements]
    · obtain ⟨e, rest, rfl, hc, hend⟩ := exists_element pattern
      rw [elements_cons hc hend hne] at hlen ⊢
      have hturn := turn_element hc hend (hlen e mem_cons_self)
      have hshort : ¬(skipNegation e).length ≥ sizeofSub - 1 := by
        have := hlen e mem_cons_self
        rw [skipNegation, apply_ite length, length_tail]
        split <;> omega
      have hfuel' : rest.tail.length ≤ fuel := by
        have := length_pos_iff.mpr hne
        rw [length_append] at hfuel this
        rw [length_tail]
        omega
      have ih := fun got => ih got hfuel' fun e he => hlen e (mem_cons_of_mem _ he)
      rw [matchElements, hturn.1, hturn.2, (skipNegation_append e hend).1, if_neg hshort, ih, ih,
        verdict_cons]
      · rfl
      · exact hne

/-- The answer for a list of short elements, which does not depend on their order. -/
theorem matchPatternList_eq (string pattern : Bytes) (dolower : Bool)
    (hlen : ∀ e ∈ elements pattern, e.length < sizeofSub - 1) :
    matchPatternList string pattern dolower = verdict string dolower false (elements pattern) ∧
      ∀ pattern', (elements pattern').Perm (elements pattern) →
        matchPatternList string pattern' dolower = matchPatternList string pattern dolower := by
  have heq : ∀ p, (∀ e ∈ elements p, e.length < sizeofSub - 1) →
      matchPatternList string p dolower = verdict string dolower false (elements p) :=
    fun p h => matchElements_eq string dolower false (le_rfl) h
  refine ⟨heq pattern hlen, fun pattern' hperm => ?_⟩
  rw [heq pattern hlen, heq pattern' fun e he => hlen e (hperm.mem_iff.mp he)]
  simp only [verdict, hperm.mem_iff]

/-- `match_pattern_list ("ab", "a*,!b*", 6, 0)` -/
theorem matchPatternList_two :
    (∀ e ∈ elements (ascii "a*,!b*"), e.length < sizeofSub - 1) ∧
      matchPatternList (ascii "ab") (ascii "a*,!b*") false = 1 :=
  ⟨by decide, (matchPatternList_eq _ _ _ (by decide)).1.trans (by decide)⟩

/-- The empty string is not found behind the last comma. -/
theorem matchPatternList_lastComma :
    matchPatternList [] (ascii "a,") false = 0 ∧ [] ∈ (ascii "a,").splitOn comma ∧
      elementMatches [] false [] = true := by
  decide

end Shiesh.Match
