import Mathlib.Data.List.TakeWhile
import Shiesh.Sftp.Jail

/-!
# The Path Parser

`Path::init` asserts that the token before the first separator is a drive letter of one character,
when the text has a `':'` in position 1. The tokenizer skips separators before it takes this token:
for a text that begins with `"::"` it takes one that stands further to the right.
-/

namespace Shiesh.Sftp

open Shiesh.Lib List Bool
open Path (hasDriveLetter init)

/-! ## §1 The loop -/

/-- The `while` loop of `parse_path` over the text from `from` on; `none` when it has not come to
its end after so many turns. -/
def parseLoop (ndebug : Bool) : (turns : Nat) → Bool → WChar → List WString → WString →
    Option (Except PathError (WChar × List WString))
  | _, _, drive, path, [] => some (.ok (drive, path))
  | 0, _, _, _, _ :: _ => none
  | turns + 1, firstIsDrive, drive, path, c :: cs =>
    -- `find_first_of (L"\\:", from)`
    match (c :: cs).dropWhile (!isSeparator ·) with
    | [] => some (.ok (drive, path ++ [c :: cs]))
    | _ :: behind =>
      match (c :: cs).takeWhile (!isSeparator ·) with
      -- `from == pos`
      | [] => parseLoop ndebug turns firstIsDrive drive path cs
      | t :: ts =>
        if firstIsDrive then
          if ts = [] ∨ ndebug = true then parseLoop ndebug turns false (tolower t) path behind
          else some (.error .assertion)
        else
          parseLoop ndebug turns false drive (path ++ [t :: ts]) behind

section Tokens

variable {ndebug firstIsDrive : Bool} {drive : WChar} {path : List WString}

variable {x : WChar} {tok word : WString}

theorem parsePath_char (hx : isSeparator x = false) (tok rest : WString) :
    parsePath ndebug firstIsDrive tok drive path (x :: rest) =
      parsePath ndebug firstIsDrive (tok ++ [x]) drive path rest := by
  cases tok <;> simp [parsePath, hx]

/-- Separators without a token before them are skipped. -/
theorem parsePath_skip (hx : isSeparator x = true) (rest : WString) :
    parsePath ndebug firstIsDrive [] drive path (x :: rest) =
      parsePath ndebug firstIsDrive [] drive path rest := by
  simp [parsePath, hx]

/-- The end of a token that is a component -/
theorem parsePath_component (hx : isSeparator x = true) (htok : tok ≠ []) (rest : WString) :
    parsePath ndebug false tok drive path (x :: rest) =
      parsePath ndebug false [] drive (path ++ [tok]) rest := by
  cases tok with
  | nil => exact absurd rfl htok
  | cons t ts => simp [parsePath, hx]

/-- The end of a token that is the drive letter -/
theorem parsePath_driveToken (hx : isSeparator x = true) (t : WChar) (ts rest : WString) :
    parsePath ndebug true (t :: ts) drive path (x :: rest) =
      if ts = [] ∨ ndebug = true then parsePath ndebug false [] (tolower t) path rest
      else .error .assertion := by
  simp [parsePath, hx]

/-- Characters that are no separators are added to the token. -/
theorem parsePath_append (hword : ∀ x ∈ word, isSeparator x = false) (tok rest : WString) :
    parsePath ndebug firstIsDrive tok drive path (word ++ rest) =
      parsePath ndebug firstIsDrive (tok ++ word) drive path rest := by
  induction word generalizing tok with
  | nil => rw [nil_append, append_nil]
  | cons x word ih =>
    obtain ⟨hx, hword⟩ := forall_mem_cons.mp hword
    rw [cons_append, parsePath_char hx, ih hword, append_assoc, singleton_append]

/-- The last token -/
theorem parsePath_last (hword : ∀ x ∈ word, isSeparator x = false) :
    parsePath ndebug firstIsDrive [] drive path word =
      .ok (drive, if word = [] then path else path ++ [word]) := by
  have happend : parsePath ndebug firstIsDrive [] drive path (word ++ []) =
      parsePath ndebug firstIsDrive word drive path [] := parsePath_append hword [] []
  rw [append_nil] at happend
  rw [happend, parsePath]

/-- **The loop comes to its end** after as many turns as there are characters at most, and does what
`parsePath` does. -/
theorem parseLoop_eq (turns : Nat) (text : WString) (hturns : text.length ≤ turns) :
    parseLoop ndebug turns firstIsDrive drive path text =
      some (parsePath ndebug firstIsDrive [] drive path text) := by
  induction turns generalizing firstIsDrive drive path text with
  | zero =>
    rw [length_eq_zero_iff.mp (Nat.le_zero.mp hturns), parseLoop, parsePath, if_pos rfl]
  | succ turns ih =>
    cases text with
    | nil => rw [parseLoop, parsePath, if_pos rfl]
    | cons c cs =>
      have hsplit : (c :: cs).takeWhile (!isSeparator ·) ++ (c :: cs).dropWhile (!isSeparator ·) =
        c :: cs := takeWhile_append_dropWhile
      have hword : ∀ x ∈ (c :: cs).takeWhile (!isSeparator ·), isSeparator x = false := by
        intro x hx
        simpa using mem_takeWhile_imp hx
      rw [parseLoop]
      cases hrest : (c :: cs).dropWhile (!isSeparator ·) with
      | nil =>
        rw [hrest, append_nil] at hsplit
        rw [hsplit] at hword
        rw [parsePath_last hword, if_neg (cons_ne_nil c cs)]
      | cons x behind =>
        have hx : isSeparator x = true := by
          have hhead := head_dropWhile_not (!isSeparator ·) (by rw [hrest]; exact cons_ne_nil _ _)
          simpa [hrest] using hhead
        rw [hrest] at hsplit
        have hshort : behind.length ≤ turns := by
          have hlen := congrArg length hsplit
          simp only [length_append, length_cons] at hlen hturns
          omega
        cases htok : (c :: cs).takeWhile (!isSeparator ·) with
        | nil =>
          rw [htok, nil_append, cons.injEq] at hsplit
          obtain ⟨rfl, rfl⟩ := hsplit
          rw [ih _ hshort, parsePath_skip hx]
        | cons t ts =>
          rw [htok] at hsplit hword
          rw [← hsplit, parsePath_append hword, nil_append]
          cases firstIsDrive with
          | true =>
            rw [parsePath_driveToken hx]
            simp only [if_true]
            split
            · exact ih _ hshort
            · rfl
          | false =>
            rw [parsePath_component hx (cons_ne_nil t ts)]
            exact ih _ hshort

/-- Without a drive letter to take, the tokenizer does not fail. -/
theorem parsePath_total (ndebug : Bool) (drive : WChar) (path : List WString) (tok text : WString) :
    ∃ path', parsePath ndebug false tok drive path text = .ok (drive, path') := by
  induction text generalizing tok path with
  | nil => exact ⟨_, by rw [parsePath]⟩
  | cons x text ih =>
    cases hx : isSeparator x with
    | false =>
      rw [parsePath_char hx]
      exact ih _ _
    | true =>
      cases tok with
      | nil =>
        rw [parsePath_skip hx]
        exact ih _ _
      | cons t ts =>
        rw [parsePath_component hx (cons_ne_nil t ts)]
        exact ih _ _

/-- A token becomes a component. -/
theorem parsePath_ne_nil {text : WString} {r : WChar × List WString}
    (h : parsePath ndebug false tok drive path text = .ok r) (hsome : path ≠ [] ∨ tok ≠ []) :
    r.2 ≠ [] := by
  induction text generalizing tok path with
  | nil =>
    rw [parsePath] at h
    cases h
    by_cases htok : tok = []
    · rw [if_pos htok]
      exact hsome.resolve_right fun hne => hne htok
    · rw [if_neg htok]
      exact append_ne_nil_of_right_ne_nil _ (cons_ne_nil _ _)
  | cons x text ih =>
    cases hx : isSeparator x with
    | false =>
      rw [parsePath_char hx] at h
      exact ih h (.inr (append_ne_nil_of_right_ne_nil _ (cons_ne_nil _ _)))
    | true =>
      cases tok with
      | nil =>
        rw [parsePath_skip hx] at h
        exact ih h hsome
      | cons t ts =>
        rw [parsePath_component hx (cons_ne_nil t ts)] at h
        exact ih h (.inl (append_ne_nil_of_right_ne_nil _ (cons_ne_nil _ _)))

end Tokens

/-! ## §2 What `create_path` passes on -/

/-- A run of `'\\'` has been collapsed. -/
theorem collapseSlashes_single (b : Bool) (s : WString) :
    hasRepeatedSlash (collapseSlashes b s) = false ∧
      (b = true → (collapseSlashes b s).head? ≠ some (L '\\')) := by
  fun_induction collapseSlashes b s with
  | case1 b => exact ⟨rfl, fun _ h => by cases h⟩
  | case2 s ih => exact ih
  | case3 b s hb ih =>
    refine ⟨?_, fun htrue => absurd htrue hb⟩
    cases hrest : collapseSlashes true s with
    | nil => rfl
    | cons x xs =>
      rw [hrest] at ih
      have hx : x ≠ L '\\' := fun heq => ih.2 rfl (by rw [heq]; rfl)
      simp only [hasRepeatedSlash, ih.1, Bool.or_false, Bool.and_eq_false_iff, beq_eq_false_iff_ne]
      exact .inr hx
  | case4 b c s hc ih =>
    refine ⟨?_, fun _ hhead => hc (Option.some.inj hhead)⟩
    cases hrest : collapseSlashes false s with
    | nil => rfl
    | cons x xs =>
      rw [hrest] at ih
      simp only [hasRepeatedSlash, ih.1, Bool.or_false, Bool.and_eq_false_iff, beq_eq_false_iff_ne]
      exact .inl hc

theorem hasRepeatedSlash_tail {c : WChar} {s : WString} (h : hasRepeatedSlash (c :: s) = false) :
    hasRepeatedSlash s = false := by
  cases s with
  | nil => rfl
  | cons d s =>
    simp only [hasRepeatedSlash, or_eq_false_iff] at h
    exact h.2

/-- What `create_path` passes on to `Path::init` -/
structure PassedOn (form : WString) : Prop where
  single : hasRepeatedSlash form = false
  head : form.head? ≠ some (L '\\')

theorem passedOn {s form : WString} (h : sshPathText s = L '\\' :: form) : PassedOn form := by
  obtain ⟨hsingle, -⟩ := collapseSlashes_single false (replaceSlashes s)
  rw [sshPathText] at h
  split at h
  · rw [h] at hsingle
    refine ⟨hasRepeatedSlash_tail hsingle, fun hhead => ?_⟩
    cases form with
    | nil => cases hhead
    | cons x xs =>
      cases hhead
      simp [hasRepeatedSlash] at hsingle
  case isFalse hfirst =>
    cases h
    refine ⟨hsingle, fun hhead => hfirst ?_⟩
    rw [← hhead, head?_eq_getElem?]

/-! ## §3 Main result -/

/-- The parser is right about this text: it fails only with `InvalidPath`, assertions included, and
the drive letter, if there is one, is the lower-cased character before the `':'` in position 1. -/
structure ParsesRight (form : WString) : Prop where
  invalid : ∀ ndebug e, init ndebug form = .error e → ∃ text reason, e = .invalidPath text reason
  drive : ∀ ndebug p, init ndebug form = .ok p → p.hasDriveLetter = true →
    ∃ letter rest, form = letter :: L ':' :: rest ∧ p.drive = tolower letter

/-- The text begins with `"::"` and has a token before another separator. The token is taken for the
drive letter. A single `'?'` does no harm there, unless the path is then absolute and empty. -/
def misreadsDrive : WString → Bool
  | a :: b :: rest =>
    let text := rest.dropWhile (· == L '\\')
    let behind := text.dropWhile (· != L '\\')
    a == L ':' && b == L ':' && !rest.contains (L ':') && !behind.isEmpty &&
      !(text.takeWhile (· != L '\\') == [L '?'] && (text == rest || 2 ≤ behind.length))
  | _ => false

/-- The path made of what the tokenizer returns -/
def parsedPath (form : WString) (r : WChar × List WString) : Path where
  path := r.2
  drive := r.1
  isRelative := !(driveOf form != L '?' && form[2]? == some (L '\\'))

def wellFormed (p : Path) : Bool := p.isRelative || 1 ≤ p.path.length || p.hasDriveLetter

section Init

variable {ndebug : Bool} {form : WString}

theorem init_colon (h : PassedOn form) (hcolon : (form.drop 2).contains (L ':') = true) :
    init ndebug form = .error (.invalidPath form " found ':' in a path") := by
  rw [init, h.single, if_neg Bool.false_ne_true, if_pos hcolon]

theorem init_parsed (h : PassedOn form) (hcolon : (form.drop 2).contains (L ':') = false) :
    init ndebug form =
      (parsePath ndebug (driveOf form != L '?') [] (driveOf form) [] form).bind fun r =>
        (assertThat ndebug (wellFormed (parsedPath form r))).bind
        fun _ => .ok (parsedPath form r) := by
  have hfirst : (form[0]? == some (L '\\')) = false := by
    rw [beq_eq_false_iff_ne, ← head?_eq_getElem?]
    exact h.head
  have hdrive : ¬(!!(driveOf form != L '?' && form[2]? == some (L '\\')) &&
      driveOf form == L '?') = true := by
    intro hbad
    simp only [Bool.not_not, Bool.and_eq_true, bne_iff_ne, beq_iff_eq] at hbad
    exact hbad.1.1 hbad.2
  rw [init, h.single, if_neg Bool.false_ne_true, if_neg (by rw [hcolon]; exact Bool.false_ne_true)]
  simp only [hfirst, Bool.false_or]
  rw [if_neg hdrive]
  rfl

theorem parsesRight_of_colon (h : PassedOn form) (hcolon : (form.drop 2).contains (L ':') = true) :
    ParsesRight form := by
  refine ⟨fun ndebug e he => ?_, fun ndebug p hp => ?_⟩
  · rw [init_colon h hcolon] at he
    cases he
    exact ⟨_, _, rfl⟩
  · rw [init_colon h hcolon] at hp
    cases hp

theorem not_parsesRight (hfails : init false form = .error .assertion) : ¬ParsesRight form := by
  intro hright
  obtain ⟨text, reason, heq⟩ := hright.invalid false _ hfails
  cases heq

/-- Where the tokenizer does not fail, it depends on what it returns. -/
theorem parsesRight_iff_of_parsed {drive : WChar} {W : Prop} (h : PassedOn form)
    (hcolon : (form.drop 2).contains (L ':') = false)
    (hparse : ∀ ndebug, ∃ path, parsePath ndebug (driveOf form != L '?') [] (driveOf form) [] form =
        .ok (drive, path) ∧ (wellFormed (parsedPath form (drive, path)) = true ↔ W)) :
    ParsesRight form ↔
      W ∧ (drive ≠ L '?' → ∃ letter rest, form = letter :: L ':' :: rest ∧ drive =
      tolower letter) := by
  have hinit : ∀ ndebug, ∃ path, init ndebug form =
      (assertThat ndebug (wellFormed (parsedPath form (drive, path)))).bind
        (fun _ => .ok (parsedPath form (drive, path))) ∧
      (wellFormed (parsedPath form (drive, path)) = true ↔ W) := by
    intro ndebug
    obtain ⟨path, hpath, hwell⟩ := hparse ndebug
    refine ⟨path, ?_, hwell⟩
    rw [init_parsed h hcolon, hpath]
    rfl
  constructor
  · intro hright
    obtain ⟨path, hpath, hwell⟩ := hinit false
    have hW : W := by
      by_contra hnot
      rw [← hwell, not_eq_true] at hnot
      rw [hnot] at hpath
      exact not_parsesRight hpath hright
    rw [hwell.mpr hW] at hpath
    exact ⟨hW,
      fun hne => hright.drive false _ hpath (by simpa [hasDriveLetter, parsedPath] using hne)⟩
  · intro ⟨hW, hdrive⟩
    refine ⟨fun ndebug e he => ?_, fun ndebug p hp hletter => ?_⟩ <;>
      obtain ⟨path, hpath, hwell⟩ := hinit ndebug <;> rw [hwell.mpr hW] at hpath
    · cases hpath.symm.trans he
    · cases hpath.symm.trans hp
      exact hdrive (by simpa [hasDriveLetter, parsedPath] using hletter)

/-- What is neither a capital nor a small letter comes from itself only. -/
theorem tolower_eq_iff {y : WChar} (hupper : ¬(0x41 ≤ y ∧ y ≤ 0x5a))
    (hlower : ¬(0x61 ≤ y ∧ y ≤ 0x7a))
    (x : WChar) : tolower x = y ↔ x = y := by
  rw [tolower]
  split
  case isTrue hx =>
    rw [UInt16.le_iff_toNat_le, UInt16.le_iff_toNat_le] at hx hupper hlower
    simp only [← UInt16.toNat_inj, UInt16.toNat_add, UInt16.reduceToNat] at hx hupper hlower ⊢
    omega
  case isFalse => exact .rfl

theorem driveOf_colon (c : WChar) (rest : WString) : driveOf (c :: L ':' :: rest) = c := by
  rw [driveOf, if_pos (beq_self_eq_true _)]

theorem driveOf_ne {form : WString} (h : driveOf form ≠ L '?') :
    ∃ c rest, form = c :: L ':' :: rest ∧ driveOf form = c := by
  cases form with
  | nil => exact absurd rfl h
  | cons c rest =>
    cases rest with
    | nil => exact absurd rfl h
    | cons d rest =>
      simp only [driveOf] at h ⊢
      split at h
      case isTrue hd => exact ⟨c, rest, by rw [beq_iff_eq.mp hd], by rw [if_pos hd]⟩
      case isFalse => exact absurd rfl h

/-- No drive letter -/
theorem parsesRight_of_noDrive (h : PassedOn form) (hcolon : (form.drop 2).contains (L ':') = false)
    (hnone : driveOf form = L '?') : ParsesRight form := by
  refine (parsesRight_iff_of_parsed h hcolon
    fun ndebug => ?_).mpr ⟨trivial, fun hne => absurd rfl hne⟩
  obtain ⟨path, hpath⟩ := parsePath_total ndebug (L '?') [] [] form
  rw [hnone]
  exact ⟨path, hpath, by simp [wellFormed, parsedPath, hnone]⟩

/-- A drive letter that is not a `':'` -/
theorem parsesRight_of_letter {c : WChar} {rest : WString} (h : PassedOn (c :: L ':' :: rest))
    (hcolon : rest.contains (L ':') = false) (hdrive : c ≠ L '?') (hc : c ≠ L ':') :
    ParsesRight (c :: L ':' :: rest) := by
  have hsep : isSeparator c = false :=
    isSeparator_eq_false.mpr ⟨fun heq => h.head (by rw [heq]; rfl), hc⟩
  have hlower : tolower c ≠ L '?' := fun heq =>
    hdrive ((tolower_eq_iff (by decide) (by decide) c).mp heq)
  refine (parsesRight_iff_of_parsed h hcolon
    fun ndebug => ?_).mpr ⟨trivial, fun _ => ⟨c, rest, rfl, rfl⟩⟩
  obtain ⟨path, hpath⟩ := parsePath_total ndebug (tolower c) [] [] rest
  rw [driveOf_colon, bne_iff_ne.mpr hdrive, parsePath_char hsep, nil_append,
    parsePath_driveToken rfl,
    if_pos (.inl rfl)]
  exact ⟨path, hpath, by simp [wellFormed, parsedPath, hasDriveLetter, hlower]⟩

end Init

/-! ### Two `':'` -/

theorem hasRepeatedSlash_suffix {s s' : WString} (h : hasRepeatedSlash s = false)
    (hsuffix : s' <:+ s) :
    hasRepeatedSlash s' = false := by
  obtain ⟨pre, rfl⟩ := hsuffix
  induction pre with
  | nil => exact h
  | cons c pre ih => exact ih (hasRepeatedSlash_tail h)

/-- Slashes at the beginning are skipped. -/
theorem parsePath_dropSlashes {ndebug firstIsDrive : Bool} {drive : WChar} {path : List WString}
    (text : WString) :
    parsePath ndebug firstIsDrive [] drive path text =
      parsePath ndebug firstIsDrive [] drive path (text.dropWhile (· == L '\\')) := by
  induction text with
  | nil => rfl
  | cons x text ih =>
    by_cases hx : x = L '\\'
    · rw [hx, parsePath_skip rfl, dropWhile_cons_of_pos (by rfl), ih]
    · rw [dropWhile_cons_of_neg (by simpa using hx)]

/-- A text without `':'`, cut at its first `'\\'` -/
structure Cut (text token behind : WString) : Prop where
  whole : text = token ++ L '\\' :: behind
  token : ∀ x ∈ token, isSeparator x = false
  behind : ∀ x ∈ behind.head?, isSeparator x = false

theorem cut_of_slash {text : WString} (hcolon : L ':' ∉ text)
    (hsingle : hasRepeatedSlash text = false)
    (hslash : text.dropWhile (· != L '\\') ≠ []) :
    ∃ behind, text.dropWhile (· != L '\\') = L '\\' :: behind ∧
      Cut text (text.takeWhile (· != L '\\')) behind := by
  obtain ⟨x, behind, hbehind⟩ := exists_cons_of_ne_nil hslash
  have hx : x = L '\\' := by
    have hhead := head_dropWhile_not (· != L '\\') hslash
    simpa [hbehind] using hhead
  have hwhole : text = text.takeWhile (· != L '\\') ++ text.dropWhile (· != L '\\') :=
    takeWhile_append_dropWhile.symm
  rw [hx] at hbehind
  refine ⟨behind, hbehind, by rw [← hbehind]; exact hwhole, fun y hy => ?_, fun y hhead => ?_⟩
  · refine isSeparator_eq_false.mpr ⟨?_, fun heq => hcolon ?_⟩
    · simpa using mem_takeWhile_imp hy
    · rw [← heq]
      exact (List.takeWhile_prefix _).subset hy
  · have htail := hasRepeatedSlash_suffix hsingle (dropWhile_suffix (· != L '\\'))
    have hmem := (dropWhile_suffix (· != L '\\') (l := text)).subset
    rw [hbehind] at htail hmem
    cases behind with
    | nil => cases hhead
    | cons y' ys =>
      cases hhead
      refine isSeparator_eq_false.mpr ⟨fun heq => ?_, fun heq => hcolon ?_⟩
      · simp [hasRepeatedSlash, heq] at htail
      · rw [← heq]
        exact hmem (mem_cons_of_mem _ mem_cons_self)

section Colons

variable {ndebug : Bool} {rest : WString}

theorem parsePath_colons :
    parsePath ndebug (driveOf (L ':' :: L ':' :: rest) != L '?') []
      (driveOf (L ':' :: L ':' :: rest))
        [] (L ':' :: L ':' :: rest) =
      parsePath ndebug true [] (L ':') [] (rest.dropWhile (· == L '\\')) := by
  rw [driveOf_colon, show (L ':' != L '?') = true from rfl, parsePath_skip rfl, parsePath_skip rfl,
    parsePath_dropSlashes]

variable (h : PassedOn (L ':' :: L ':' :: rest))
include h

variable (hcolon : rest.contains (L ':') = false)
include hcolon

/-- There is no token before a separator: the drive stays `':'`. -/
theorem parsesRight_of_noToken (hword : ∀ x ∈ rest.dropWhile (· == L '\\'), isSeparator x = false) :
    ParsesRight (L ':' :: L ':' :: rest) := by
  refine (parsesRight_iff_of_parsed h hcolon fun ndebug =>
    ⟨_, parsePath_colons.trans (parsePath_last hword), ?_⟩).mpr
      ⟨trivial, fun _ => ⟨_, rest, rfl, by decide⟩⟩
  simp [wellFormed, parsedPath, hasDriveLetter, show L ':' ≠ L '?' by decide]

variable {t : WChar} {ts behind : WString}

omit h in
omit hcolon in
theorem parsePath_token (hcut : Cut (rest.dropWhile (· == L '\\')) (t :: ts) behind) :
    parsePath ndebug (driveOf (L ':' :: L ':' :: rest) != L '?') []
      (driveOf (L ':' :: L ':' :: rest))
        [] (L ':' :: L ':' :: rest) =
      if ts = [] ∨ ndebug = true then parsePath ndebug false [] (tolower t) [] behind
      else .error .assertion := by
  rw [parsePath_colons, hcut.whole, parsePath_append hcut.token, nil_append,
    parsePath_driveToken rfl]

/-- A token of more characters fails at the assertion. -/
theorem misreads_long (hcut : Cut (rest.dropWhile (· == L '\\')) (t :: ts) behind)
    (hlong : ts ≠ []) :
    ¬ParsesRight (L ':' :: L ':' :: rest) := by
  apply not_parsesRight
  rw [init_parsed h hcolon, parsePath_token hcut, if_neg (by simp [hlong])]
  rfl

/-- A token of one character is recorded as the drive letter. -/
theorem misreads_letter (hcut : Cut (rest.dropWhile (· == L '\\')) [t] behind) (ht : t ≠ L '?') :
    ¬ParsesRight (L ':' :: L ':' :: rest) := by
  intro hright
  have hletter : tolower t ≠ L '?' := fun heq =>
    ht ((tolower_eq_iff (by decide) (by decide) t).mp heq)
  have hiff := parsesRight_iff_of_parsed (W := True) h hcolon fun ndebug => by
    obtain ⟨path, hpath⟩ := parsePath_total ndebug (tolower t) [] [] behind
    rw [parsePath_token hcut, if_pos (.inl rfl)]
    exact ⟨path, hpath, by simp [wellFormed, parsedPath, hasDriveLetter, hletter]⟩
  obtain ⟨letter, rest', hform, hdrive⟩ := (hiff.mp hright).2 hletter
  -- the character before the `':'` in position 1 is a `':'`
  cases hform
  have hsame : t = L ':' := (tolower_eq_iff (by decide) (by decide) t).mp (hdrive.trans (by decide))
  have hsep := hcut.token t mem_cons_self
  rw [hsame] at hsep
  cases hsep

omit h in
omit hcolon in
/-- The path is well formed without a drive letter if it is relative or has a component. -/
theorem question_wellFormed (ndebug : Bool)
    (hcut : Cut (rest.dropWhile (· == L '\\')) [L '?'] behind) :
    ∃ path, parsePath ndebug (driveOf (L ':' :: L ':' :: rest) != L '?') []
        (driveOf (L ':' :: L ':' :: rest)) [] (L ':' :: L ':' :: rest) = .ok (L '?', path) ∧
      (wellFormed (parsedPath (L ':' :: L ':' :: rest) (L '?', path)) = true ↔
        rest.dropWhile (· == L '\\') = rest ∨ behind ≠ []) := by
  obtain ⟨path, hpath⟩ := parsePath_total ndebug (L '?') [] [] behind
  have hlower : tolower (L '?') = L '?' := by decide
  refine ⟨path, ?_, ?_⟩
  · rw [parsePath_token hcut, if_pos (.inl rfl), hlower]
    exact hpath
  · have hrelative : rest.dropWhile (· == L '\\') = rest ↔ rest[0]? ≠ some (L '\\') := by
      rw [dropWhile_eq_self_iff]
      cases rest <;> simp
    have hcomponents : path ≠ [] ↔ behind ≠ [] := by
      refine ⟨fun hne hnil => ?_, fun hne => ?_⟩
      · rw [hnil, parsePath, if_pos rfl] at hpath
        cases hpath
        exact hne rfl
      · obtain ⟨x, xs, rfl⟩ := exists_cons_of_ne_nil hne
        rw [parsePath_char (hcut.behind x rfl)] at hpath
        exact parsePath_ne_nil hpath (.inr (cons_ne_nil _ _))
    rw [hrelative, ← hcomponents, wellFormed]
    simp only [parsedPath, driveOf_colon, hasDriveLetter]
    simp [Nat.one_le_iff_ne_zero, show L ':' ≠ L '?' by decide]

/-- A `'?'` is recorded as the drive letter, which means that there is none. -/
theorem question_parsesRight_iff (hcut : Cut (rest.dropWhile (· == L '\\')) [L '?'] behind) :
    ParsesRight (L ':' :: L ':' :: rest) ↔ rest.dropWhile (· == L '\\') = rest ∨ behind ≠ [] :=
  (parsesRight_iff_of_parsed h hcolon fun ndebug => question_wellFormed ndebug hcut).trans
    (and_iff_left fun hne => absurd rfl hne)

/-- A text with two `':'` at its beginning -/
theorem colons_parsesRight_iff :
    ParsesRight (L ':' :: L ':' :: rest) ↔ misreadsDrive (L ':' :: L ':' :: rest) = false := by
  have hsuffix : rest.dropWhile (· == L '\\') <:+ rest := dropWhile_suffix _
  have hnone : L ':' ∉ rest.dropWhile (· == L '\\') := fun hmem => by
    have hmem' : rest.contains (L ':') = true := contains_iff_mem.mpr (hsuffix.subset hmem)
    rw [hcolon] at hmem'
    cases hmem'
  have hsingle : hasRepeatedSlash (rest.dropWhile (· == L '\\')) = false :=
    hasRepeatedSlash_suffix (hasRepeatedSlash_tail (hasRepeatedSlash_tail h.single)) hsuffix
  simp only [misreadsDrive, hcolon]
  generalize htext : rest.dropWhile (· == L '\\') = text at hnone hsingle
  by_cases hslash : text.dropWhile (· != L '\\') = []
  · -- no separator is left
    have hword : ∀ x ∈ text, isSeparator x = false := by
      intro x hx
      rw [isSeparator_eq_false]
      refine ⟨?_, fun heq => hnone (heq ▸ hx)⟩
      simpa using dropWhile_eq_nil_iff.mp hslash x hx
    simp only [hslash, isEmpty_nil, Bool.not_true, Bool.and_false, Bool.false_and, iff_true]
    exact parsesRight_of_noToken h hcolon (by rw [htext]; exact hword)
  · obtain ⟨behind, hbehind, hcut⟩ := cut_of_slash hnone hsingle hslash
    have hlength : 2 ≤ (L '\\' :: behind).length ↔ behind ≠ [] := by
      rw [length_cons, ← length_pos_iff]
      omega
    generalize text.takeWhile (· != L '\\') = token at hcut
    rw [← htext] at hcut
    simp only [hbehind, isEmpty_cons, Bool.not_false, Bool.and_true, Bool.true_and,
      beq_self_eq_true, Bool.not_eq_false', Bool.and_eq_true, Bool.or_eq_true, beq_iff_eq,
      decide_eq_true_iff, hlength]
    rw [← htext]
    cases token with
    | nil =>
      -- the separators at the beginning have been skipped
      have hhead := head_dropWhile_not (· == L '\\') (l := rest) (by rw [hcut.whole]; simp)
      simp [hcut.whole] at hhead
    | cons t ts =>
      by_cases hts : ts = []
      · subst hts
        by_cases ht : t = L '?'
        · subst ht
          rw [question_parsesRight_iff h hcolon hcut]
          exact ⟨fun hfine => ⟨rfl, hfine⟩, fun hfine => hfine.2⟩
        · refine iff_of_false (misreads_letter h hcolon hcut ht) fun hquestion => ht ?_
          exact (cons.inj hquestion.1).1
      · refine iff_of_false (misreads_long h hcolon hcut hts) fun hquestion => hts ?_
        exact (cons.inj hquestion.1).2

end Colons

theorem misreadsDrive_colons {form : WString} (h : misreadsDrive form = true) :
    ∃ rest, form = L ':' :: L ':' :: rest ∧ rest.contains (L ':') = false := by
  cases form with
  | nil => cases h
  | cons a form =>
    cases form with
    | nil => cases h
    | cons b rest =>
      simp only [misreadsDrive, and_eq_true, beq_iff_eq, not_eq_true'] at h
      exact ⟨rest, by rw [h.1.1.1.1, h.1.1.1.2], h.1.1.2⟩

/-- **The path parser.** On every text that `create_path` passes on, the loop of `parse_path` comes
to its end; and the parser throws `InvalidPath` or satisfies its assertions and records the right
drive letter exactly if it does not misread a token for the drive letter. -/
theorem parser_right_iff (s form : WString) (h : sshPathText s = L '\\' :: form) :
    (∀ ndebug firstIsDrive drive path,
      parseLoop ndebug form.length firstIsDrive drive path form =
        some (parsePath ndebug firstIsDrive [] drive path form)) ∧
    (ParsesRight form ↔ misreadsDrive form = false) := by
  have hform := passedOn h
  refine ⟨fun ndebug firstIsDrive drive path => parseLoop_eq _ _ (le_rfl), ?_⟩
  cases hcolon : (form.drop 2).contains (L ':') with
  | true =>
    refine iff_of_true (parsesRight_of_colon hform hcolon) (eq_false_iff.mpr fun hmisread => ?_)
    obtain ⟨rest, rfl, hnone⟩ := misreadsDrive_colons hmisread
    cases hnone.symm.trans hcolon
  | false =>
    by_cases hnone : driveOf form = L '?'
    · refine iff_of_true (parsesRight_of_noDrive hform hcolon hnone)
        (eq_false_iff.mpr fun hmisread => ?_)
      obtain ⟨rest, rfl, -⟩ := misreadsDrive_colons hmisread
      rw [driveOf_colon] at hnone
      cases hnone
    · obtain ⟨c, rest, rfl, hdrive⟩ := driveOf_ne hnone
      rw [hdrive] at hnone
      by_cases hc : c = L ':'
      · rw [hc] at hform ⊢
        exact colons_parsesRight_iff hform hcolon
      · refine iff_of_true (parsesRight_of_letter hform hcolon hnone hc)
          (eq_false_iff.mpr fun hmisread => hc ?_)
        obtain ⟨rest', hsame, -⟩ := misreadsDrive_colons hmisread
        exact (cons.inj hsame).1

-- `/C:/a`
theorem parser_right_iff_drive :
    let form := wstr ['C', ':', '\\', 'a']
    misreadsDrive form = false ∧ ParsesRight form ∧
      init false form = .ok { path := [wstr ['a']], drive := L 'c', isRelative := false } := by
  intro form
  have hform : sshPathText (wstr ['/', 'C', ':', '/', 'a']) = L '\\' :: form := by decide
  exact ⟨by decide, (parser_right_iff _ form hform).2.mpr (by decide), by decide⟩

/-- The client's path `/::ab/c`: two characters stand where the drive letter is expected. Without
assertions `'a'` becomes the drive letter. -/
theorem token_taken_for_drive :
    let form := wstr [':', ':', 'a', 'b', '\\', 'c']
    sshPathText (wstr ['/', ':', ':', 'a', 'b', '/', 'c']) = L '\\' :: form ∧
      init false form = .error .assertion ∧
      init true form = .ok { path := [wstr ['c']], drive := L 'a', isRelative := true } ∧
      ¬ParsesRight form := by
  intro form
  have hfails : init false form = .error .assertion := by decide
  exact ⟨by decide, hfails, by decide, not_parsesRight hfails⟩

end Shiesh.Sftp
