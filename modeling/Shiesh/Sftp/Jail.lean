import Shiesh.Lib.Result
import Shiesh.Sftp.Normalize

/-!
# The SFTP Jail

Every path that `createPath` returns lies below the user's home directory, whatever
string the client sent.
-/

namespace Shiesh.Sftp

open Shiesh.Lib List Path

/-! ## §1 Components -/

/-- A file name component: not empty, without `'\\'` and `':'`. -/
def IsDir (c : WString) : Prop := c ≠ [] ∧ ∀ x ∈ c, x ≠ L '\\' ∧ x ≠ L ':'

/-- A component that names something below its directory. -/
def IsPlainDir (c : WString) : Prop := IsDir c ∧ c ≠ point ∧ c ≠ point2

variable {drive letter x : WChar} {pathStr s tok : WString} {path : List WString}
  {fd ndebug : Bool} {r : WChar × List WString} {e : PathError}
  {a b p pth : Path} {α : Type} {reason : String} {n : Nat} {home : SFTPFilePath} (S : WChar → Prop)

theorem isSeparator_eq_false :
    isSeparator x = false ↔ x ≠ L '\\' ∧ x ≠ L ':' := by
  simp [isSeparator]

/-- A token whose characters are no separators is a component once it is not empty. -/
private theorem pushToken_dirs {S : WChar → Prop}
    (hne : tok ≠ []) (htok : ∀ x ∈ tok, S x ∧ isSeparator x = false)
    (hpath : ∀ c ∈ path, IsDir c ∧ ∀ x ∈ c, S x) :
    ∀ c ∈ path ++ [tok], IsDir c ∧ ∀ x ∈ c, S x := by
  intro c hc
  rcases mem_append.mp hc with hc | hc
  · exact hpath c hc
  · rw [mem_singleton.mp hc]
    exact ⟨⟨hne, fun x hx => isSeparator_eq_false.mp (htok x hx).2⟩, fun x hx => (htok x hx).1⟩

/-- **The tokenizer**: the components are non-empty, free of separators, and made of
characters of the text. -/
theorem parsePath_dirs
    (h : parsePath ndebug fd tok drive path s = .ok r) (hs : ∀ x ∈ s, S x)
    (htok : ∀ x ∈ tok, S x ∧ isSeparator x = false)
    (hpath : ∀ c ∈ path, IsDir c ∧ ∀ x ∈ c, S x) :
    ∀ c ∈ r.2, IsDir c ∧ ∀ x ∈ c, S x := by
  fun_induction parsePath ndebug fd tok drive path s with
  | case1 fd tok drive path =>
    cases h
    by_cases ht : tok = []
    · rw [if_pos ht]
      exact hpath
    · rw [if_neg ht]
      exact pushToken_dirs ht htok hpath
  | case2 fd drive path a s hsep ih =>
    exact ih h (fun x hx => hs x (mem_cons_of_mem _ hx)) (by simp) hpath
  | case3 drive path a s hsep t ts hts ih =>
    -- the drive letter: no component is pushed
    exact ih h (fun x hx => hs x (mem_cons_of_mem _ hx)) (by simp) hpath
  | case4 => cases h
  | case5 fd drive path a s hsep t ts hfd ih =>
    exact ih h (fun x hx => hs x (mem_cons_of_mem _ hx)) (by simp)
      (pushToken_dirs (by simp) htok hpath)
  | case6 fd tok drive path a s hsep ih =>
    refine ih h (fun x hx => hs x (mem_cons_of_mem _ hx)) ?_ hpath
    intro x hx
    rcases mem_append.mp hx with hx | hx
    · exact htok x hx
    · rw [mem_singleton.mp hx]
      exact ⟨hs a (mem_cons_self ..), by simpa using hsep⟩

/-- Once the drive letter is taken, or absent, the tokenizer leaves `drive` alone. -/
theorem parsePath_drive
    (h : parsePath ndebug false tok drive path s = .ok r) : r.1 = drive := by
  generalize hfd : false = fd at h
  fun_induction parsePath ndebug fd tok drive path s with
  | case1 fd tok drive path => cases h; rfl
  | case2 fd drive path a s hsep ih => exact ih hfd h
  | case3 => cases hfd
  | case4 => cases h
  | case5 fd drive path a s hsep t ts hnot ih => exact ih rfl h
  | case6 fd tok drive path a s hsep ih => exact ih hfd h

/-- The tokenizer fails only at its assertion. -/
theorem parsePath_error
    (h : parsePath ndebug fd tok drive path s = .error e) :
    e = .assertion ∧ ndebug = false := by
  fun_induction parsePath ndebug fd tok drive path s with
  | case1 => cases h
  | case2 fd drive path a s hsep ih => exact ih h
  | case3 drive path a s hsep t ts hts ih => exact ih h
  | case4 drive path a s hsep t ts hts =>
    cases h
    simp only [not_or, Bool.not_eq_true] at hts
    exact ⟨rfl, hts.2⟩
  | case5 fd drive path a s hsep t ts hfd ih => exact ih h
  | case6 fd tok drive path a s hsep ih => exact ih h

/-! ## §2 The constructors and what they throw -/

/-- The exceptions a client can provoke: `InvalidPath`, and in a build with assertions
the parser's own assertion. -/
def Thrown (ndebug : Bool) (e : PathError) : Prop :=
  (∃ text reason, e = .invalidPath text reason) ∨ (e = .assertion ∧ ndebug = false)

theorem assertThat_error {cond : Bool}
    (h : assertThat ndebug cond = .error e) : e = .assertion ∧ ndebug = false := by
  unfold assertThat at h
  split at h
  · cases h
  · rename_i hc
    cases h
    simp only [Bool.or_eq_true, not_or, Bool.not_eq_true] at hc
    exact ⟨rfl, hc.2⟩

theorem toWString_error
    (h : p.toWString ndebug = .error e) : Thrown ndebug e := by
  rcases except_bind_eq_error h with h | ⟨_, _, h⟩
  · exact .inr (assertThat_error h)
  · simp only at h
    split at h <;> cases h

theorem throwInvalid_eq_error (ndebug : Bool) (p : Path) (reason : String) :
    ∃ e, (p.throwInvalid ndebug reason : Except PathError α) = .error e ∧ Thrown ndebug e := by
  cases ht : p.toWString ndebug with
  | error e =>
    have heq : (p.throwInvalid ndebug reason : Except PathError α) = .error e := by
      simp only [throwInvalid, ht]; rfl
    exact ⟨e, heq, toWString_error ht⟩
  | ok text =>
    have heq : (p.throwInvalid ndebug reason : Except PathError α) =
        .error (.invalidPath text reason) := by
      simp only [throwInvalid, ht]; rfl
    exact ⟨_, heq, .inl ⟨text, reason, rfl⟩⟩

theorem throwInvalid_ne_ok {a : α} :
    p.throwInvalid ndebug reason ≠ .ok a := by
  obtain ⟨e, he, -⟩ := throwInvalid_eq_error (α := α) ndebug p reason
  rw [he]
  intro h
  cases h

theorem throwInvalid_error (h : (p.throwInvalid ndebug reason : Except PathError α) = .error e) :
    Thrown ndebug e := by
  obtain ⟨e', he, hthrown⟩ := throwInvalid_eq_error (α := α) ndebug p reason
  rw [he] at h
  cases h
  exact hthrown

/-- What an accepted text gives: the tokenizer ran on it. -/
theorem init_ok (h : init ndebug s = .ok p) :
    parsePath ndebug (driveOf s != L '?') [] (driveOf s) [] s = .ok (p.drive, p.path) := by
  unfold init at h
  split at h
  · cases h
  split at h
  · cases h
  simp only at h
  split at h
  · cases h
  obtain ⟨⟨d, comps⟩, hparse, h⟩ := except_bind_eq_ok h
  obtain ⟨_, _, h⟩ := except_bind_eq_ok h
  cases h
  exact hparse

theorem init_error
    (h : init ndebug s = .error e) : Thrown ndebug e := by
  unfold init at h
  split at h
  · cases h; exact .inl ⟨_, _, rfl⟩
  split at h
  · cases h; exact .inl ⟨_, _, rfl⟩
  simp only at h
  split at h
  · cases h; exact .inl ⟨_, _, rfl⟩
  rcases except_bind_eq_error h with h | ⟨⟨d, comps⟩, _, h⟩
  · exact .inr (parsePath_error h)
  rcases except_bind_eq_error h with h | ⟨_, _, h⟩
  · exact .inr (assertThat_error h)
  · cases h

theorem init_dirs
    (h : init ndebug s = .ok p) (hs : ∀ x ∈ s, S x) :
    ∀ c ∈ p.path, IsDir c ∧ ∀ x ∈ c, S x :=
  parsePath_dirs S (init_ok h) hs (by simp) (by simp)

/-- The `SFTPFilePath` constructor keeps the path it is given. -/
theorem sftpFilePath_ok {p : SFTPFilePath}
    (h : sftpFilePath ndebug pth n = .ok p) : p.toPath = pth := by
  unfold sftpFilePath at h
  split at h
  · exact absurd h throwInvalid_ne_ok
  · cases h; rfl

theorem sftpFilePath_error
    (h : sftpFilePath ndebug pth n = .error e) : Thrown ndebug e := by
  unfold sftpFilePath at h
  split at h
  · exact throwInvalid_error h
  · cases h

/-! ## §3 The home directory -/

/-- An ASCII letter. -/
def isAsciiLetter (c : WChar) : Bool :=
  (0x41 ≤ c && c ≤ 0x5a) || (0x61 ≤ c && c ≤ 0x7a)

theorem isAsciiLetter_ne {c : WChar} (h : isAsciiLetter c = true) :
    isSeparator c = false ∧ c ≠ L '?' := by
  refine ⟨isSeparator_eq_false.mpr ⟨?_, ?_⟩, ?_⟩ <;>
    · rintro rfl
      revert h
      decide

/-- The first token of `letter:\rest` is the drive letter, and the tokenizer goes on
behind the `":\"`. -/
theorem parsePath_letter (rest : WString)
    (hl : isAsciiLetter letter = true) :
    parsePath ndebug true [] letter [] (letter :: L ':' :: L '\\' :: rest) =
      parsePath ndebug false [] (tolower letter) [] rest := by
  have hsep := (isAsciiLetter_ne hl).1
  have hcolon : isSeparator (L ':') = true := rfl
  have hslash : isSeparator (L '\\') = true := rfl
  simp [parsePath, hsep, hcolon, hslash]

/-- **The home**: for a text `letter:\rest` the factory keeps the drive of the letter, and
plain components made of characters of `rest`. -/
theorem sftpFilePathFactory_ok {rest : WString} (hl : isAsciiLetter letter = true)
    (hrest : ∀ x ∈ rest, S x)
    (h : sftpFilePathFactory ndebug (letter :: L ':' :: L '\\' :: rest) = .ok home) :
    home.drive = tolower letter ∧
      ∀ c ∈ home.path, IsPlainDir c ∧ ∀ x ∈ c, S x := by
  obtain ⟨p, hinit, h⟩ := except_bind_eq_ok h
  have hparse := init_ok hinit
  have hdrive : driveOf (letter :: L ':' :: L '\\' :: rest) = letter := by
    simp [driveOf]
  have hletter : (letter != L '?') = true := by
    simpa using (isAsciiLetter_ne hl).2
  rw [hdrive, hletter, parsePath_letter rest hl] at hparse
  have hdirs : ∀ c ∈ p.path, IsDir c ∧ ∀ x ∈ c, S x :=
    parsePath_dirs S hparse hrest (by simp) (by simp)
  split at h
  · cases h
  simp only at h
  split at h
  · exact absurd h throwInvalid_ne_ok
  rename_i hnorm
  have hflag : (normalizeDirs p.path).2 = true := by
    simpa [Path.normalize] using hnorm
  have hclean := normalizeDirs_clean hflag
  have hhome : home.toPath = p.normalize.1 := sftpFilePath_ok h
  rw [hhome]
  refine ⟨parsePath_drive hparse, ?_⟩
  intro c hc
  obtain ⟨hmem, h1, h2⟩ := hclean c hc
  exact ⟨⟨(hdirs c hmem).1, h1, h2⟩, (hdirs c hmem).2⟩

/-! ## §4 The client path -/

theorem mem_collapseSlashes {b : Bool}
    (h : x ∈ collapseSlashes b s) : x ∈ s := by
  fun_induction collapseSlashes b s with
  | case1 => exact h
  | case2 s ih => exact mem_cons_of_mem _ (ih h)
  | case3 b s hb ih =>
    rcases mem_cons.mp h with rfl | h
    · exact mem_cons_self ..
    · exact mem_cons_of_mem _ (ih h)
  | case4 b c s hc ih =>
    rcases mem_cons.mp h with rfl | h
    · exact mem_cons_self ..
    · exact mem_cons_of_mem _ (ih h)

theorem replaceSlashes_noSlash (h : x ∈ replaceSlashes s) :
    x ≠ L '/' := by
  obtain ⟨c, -, rfl⟩ := mem_map.mp h
  by_cases hc : c = L '/'
  · rw [if_pos hc]; decide
  · rw [if_neg hc]; exact hc

/-- No `'/'` reaches `ShieSSHPath`. -/
theorem sshPathText_noSlash (h : x ∈ sshPathText s) :
    x ≠ L '/' := by
  have hcollapse : ∀ y ∈ collapseSlashes false (replaceSlashes s), y ≠ L '/' :=
    fun y hy => replaceSlashes_noSlash (mem_collapseSlashes hy)
  simp only [sshPathText] at h
  split at h
  · exact hcollapse x h
  · rcases mem_cons.mp h with rfl | h
    · decide
    · exact hcollapse x h

theorem getStandardForm_ok {form : WString} (h : getStandardForm s = .ok form) :
    s = L '\\' :: form := by
  unfold getStandardForm at h
  split at h
  · split at h
    · rename_i hc
      cases h
      rw [hc]
    · cases h
  · cases h

theorem getStandardForm_error
    (h : getStandardForm s = .error e) : ∃ text reason, e = .invalidPath text reason := by
  unfold getStandardForm at h
  split at h
  · split at h
    · cases h
    · cases h; exact ⟨_, _, rfl⟩
  · cases h; exact ⟨_, _, rfl⟩

/-- The client's path before normalization: its components hold no `'/'`, and it has a
drive letter exactly when it is absolute. -/
theorem shieSSHPath_ok
    (h : shieSSHPath ndebug (sshPathText s) = .ok p) :
    (∀ c ∈ p.path, IsDir c ∧ L '/' ∉ c) ∧ p.isRelative = !p.hasDriveLetter := by
  obtain ⟨form, hform, h⟩ := except_bind_eq_ok h
  obtain ⟨q, hinit, h⟩ := except_bind_eq_ok h
  have hmem : ∀ x ∈ form, x ≠ L '/' := by
    intro x hx
    have hx' : x ∈ sshPathText s := by
      rw [getStandardForm_ok hform]
      exact mem_cons_of_mem _ hx
    exact sshPathText_noSlash hx'
  cases h
  refine ⟨?_, rfl⟩
  intro c hc
  obtain ⟨hdir, hne⟩ := init_dirs (· ≠ L '/') hinit hmem c hc
  exact ⟨hdir, fun hx => hne _ hx rfl⟩

theorem shieSSHPath_error
    (h : shieSSHPath ndebug s = .error e) : Thrown ndebug e := by
  rcases except_bind_eq_error h with h | ⟨form, _, h⟩
  · exact .inl (getStandardForm_error h)
  · rcases except_bind_eq_error h with h | ⟨q, _, h⟩
    · exact init_error h
    · cases h

/-! ## §5 Joining the home -/

theorem append_ok (h : a.append ndebug b = .ok p) :
    p = { path := a.path ++ b.path, drive := a.drive, isRelative := a.isRelative } := by
  unfold append at h
  split at h
  · exact absurd h throwInvalid_ne_ok
  split at h
  · obtain ⟨_, _, h⟩ := except_bind_eq_ok h
    obtain ⟨_, _, h⟩ := except_bind_eq_ok h
    cases h
  · cases h; rfl

theorem append_error
    (h : a.append ndebug b = .error e) : Thrown ndebug e := by
  unfold append at h
  split at h
  · exact throwInvalid_error h
  split at h
  · rcases except_bind_eq_error h with h | ⟨_, _, h⟩
    · exact toWString_error h
    rcases except_bind_eq_error h with h | ⟨_, _, h⟩
    · exact toWString_error h
    · cases h; exact .inl ⟨_, _, rfl⟩
  · cases h

theorem rangeEqual_forall₂ {eq : α → α → Bool} (a b : List α)
    (hlen : a.length = b.length) (h : rangeEqual eq a b = true) :
    List.Forall₂ (fun x y => eq x y = true) a b := by
  induction a generalizing b with
  | nil =>
    have hb : b = [] := length_eq_zero_iff.mp hlen.symm
    subst hb
    exact List.Forall₂.nil
  | cons x a ih =>
    cases b with
    | nil => cases hlen
    | cons y b =>
      simp only [rangeEqual, Bool.and_eq_true] at h
      exact List.Forall₂.cons h.1 (ih b (by simpa using hlen) h.2)

theorem isEqualIgnoreCase_refl (s : WString) : isEqualIgnoreCase s s = true := by
  have hrange : rangeEqual charEqualIgnoreCase s s = true := by
    induction s with
    | nil => rfl
    | cons a s ih => simp [rangeEqual, charEqualIgnoreCase, ih]
  simp [isEqualIgnoreCase, hrange]

/-- The prefix check: the path starts with the home's components, up to case, and is on
the home's drive. -/
theorem belowHome_prefix {home : Path} (h : belowHome home p = true) :
    p.drive = home.drive ∧
    ∃ first rest, p.path = first ++ rest ∧
      List.Forall₂ (fun x y => isEqualIgnoreCase x y = true) first home.path := by
  unfold belowHome nFirstDirs at h
  by_cases hn : home.nDirs > p.nDirs
  · simp only [if_pos hn] at h
    cases h
  · simp only [if_neg hn, Bool.and_eq_true] at h
    obtain ⟨heqv, -⟩ := h
    unfold eqv at heqv
    split at heqv
    · rename_i hd
      simp only [Bool.and_eq_true, beq_iff_eq] at hd heqv
      refine ⟨hd.2, p.path.take home.nDirs, p.path.drop home.nDirs, ?_, ?_⟩
      · exact (take_append_drop _ _).symm
      · exact rangeEqual_forall₂ _ _ heqv.1 heqv.2
    · cases heqv

/-! ## §6 The jail -/

/-- `p` lies below `home`: on its drive, with the home's components in front up to case,
and with components that cannot lead back up. No `'/'` is added behind the home. -/
structure BelowHome (home p : Path) : Prop where
  absolute : p.isRelative = false
  drive : p.drive = home.drive
  plain : ∀ c ∈ p.path, IsPlainDir c
  split : ∃ first rest, p.path = first ++ rest ∧
    List.Forall₂ (fun x y => isEqualIgnoreCase x y = true) first home.path ∧
    ∀ c ∈ rest, L '/' ∉ c
  noSlash : (∀ c ∈ home.path, L '/' ∉ c) → ∀ c ∈ p.path, L '/' ∉ c

/-- The relative branch: `home + path`. -/
theorem belowHome_append {path : Path}
    (hhome : ∀ c ∈ home.path, IsPlainDir c)
    (hpath : ∀ c ∈ path.path, IsPlainDir c ∧ L '/' ∉ c)
    (h : home.toPath.append ndebug path = .ok p) : BelowHome home.toPath p := by
  rw [append_ok h]
  refine ⟨home.notRelative, rfl, ?_, ?_, ?_⟩
  · intro c hc
    rcases mem_append.mp hc with hc | hc
    · exact hhome c hc
    · exact (hpath c hc).1
  · refine ⟨home.path, path.path, rfl, ?_, fun c hc => (hpath c hc).2⟩
    exact forall₂_same.mpr fun c _ => isEqualIgnoreCase_refl c
  · intro hslash c hc
    rcases mem_append.mp hc with hc | hc
    · exact hslash c hc
    · exact (hpath c hc).2

/-- The absolute branch: the path passed the prefix check. -/
theorem belowHome_checked {home path : Path} (hrel : path.isRelative = false)
    (hpath : ∀ c ∈ path.path, IsPlainDir c ∧ L '/' ∉ c)
    (h : belowHome home path = true) : BelowHome home path := by
  obtain ⟨hdrive, first, rest, hsplit, hfirst⟩ := belowHome_prefix h
  refine ⟨hrel, hdrive, fun c hc => (hpath c hc).1, ⟨first, rest, hsplit, hfirst, ?_⟩,
    fun _ c hc => (hpath c hc).2⟩
  intro c hc
  have hmem : c ∈ path.path := by
    rw [hsplit]
    exact mem_append_right _ hc
  exact (hpath c hmem).2

theorem createPath_ok {p : SFTPFilePath}
    (hhome : ∀ c ∈ home.path, IsPlainDir c)
    (h : createPath ndebug home pathStr = .ok p) : BelowHome home.toPath p.toPath := by
  obtain ⟨path, hssh, h⟩ := except_bind_eq_ok h
  obtain ⟨hdirs, -⟩ := shieSSHPath_ok hssh
  simp only at h
  split at h
  · exact absurd h throwInvalid_ne_ok
  rename_i hnorm
  have hflag : (normalizeDirs path.path).2 = true := by
    simpa [Path.normalize] using hnorm
  have hplain : ∀ c ∈ path.normalize.1.path, IsPlainDir c ∧ L '/' ∉ c := by
    intro c hc
    obtain ⟨hmem, h1, h2⟩ := normalizeDirs_clean hflag c hc
    exact ⟨⟨(hdirs c hmem).1, h1, h2⟩, (hdirs c hmem).2⟩
  split at h
  · obtain ⟨res, hres, h⟩ := except_bind_eq_ok h
    rw [sftpFilePath_ok h]
    exact belowHome_append hhome hplain hres
  · rename_i hrel
    split at h
    · exact absurd h throwInvalid_ne_ok
    · rename_i hbelow
      rw [sftpFilePath_ok h]
      exact belowHome_checked (by simpa using hrel) hplain (by simpa using hbelow)

theorem createPath_error (h : createPath ndebug home pathStr = .error e) : Thrown ndebug e := by
  rcases except_bind_eq_error h with h | ⟨path, _, h⟩
  · exact shieSSHPath_error h
  simp only at h
  split at h
  · exact throwInvalid_error h
  split at h
  · rcases except_bind_eq_error h with h | ⟨res, _, h⟩
    · exact append_error h
    · exact sftpFilePath_error h
  · split at h
    · exact throwInvalid_error h
    · exact sftpFilePath_error h

/-- **The SFTP jail.** For a home `letter:\rest` that the factory accepts and any client
string, `createPath` throws or returns a path below that home. -/
theorem createPath_belowHome (ndebug : Bool) (letter : WChar) (rest : WString)
    (home : SFTPFilePath) (hletter : isAsciiLetter letter = true)
    (hhome : sftpFilePathFactory ndebug (letter :: L ':' :: L '\\' :: rest) = .ok home)
    (pathStr : WString) :
    (∀ e, createPath ndebug home pathStr = .error e → Thrown ndebug e) ∧
    (∀ p, createPath ndebug home pathStr = .ok p →
      BelowHome home.toPath p.toPath ∧ p.drive = tolower letter ∧
      (L '/' ∉ rest → ∀ c ∈ p.path, L '/' ∉ c)) := by
  refine ⟨fun e he => createPath_error he, ?_⟩
  intro p hp
  obtain ⟨hdrive, hdirs⟩ := sftpFilePathFactory_ok (· ∈ rest) hletter (fun _ hx => hx) hhome
  have hbelow := createPath_ok (fun c hc => (hdirs c hc).1) hp
  refine ⟨hbelow, by rw [hbelow.drive, hdrive], ?_⟩
  intro hslash
  exact hbelow.noSlash fun c hc hx => hslash ((hdirs c hc).2 _ hx)

/-- The home `C:\a` and the client string `/b`. -/
theorem createPath_belowHome_sub :
    ∃ home p : SFTPFilePath,
      sftpFilePathFactory false (wstr ['C', ':', '\\', 'a']) = .ok home ∧
      createPath false home (wstr ['/', 'b']) = .ok p ∧
      BelowHome home.toPath p.toPath ∧ p.drive = L 'c' ∧ ∀ c ∈ p.path, L '/' ∉ c := by
  refine ⟨_, _, rfl, rfl, ?_⟩
  have h := (createPath_belowHome false (L 'C') (wstr ['a']) _ (by decide) rfl
    (wstr ['/', 'b'])).2 _ rfl
  exact ⟨h.1, h.2.1, h.2.2 (by decide)⟩

/-- A `'/'` in the text of the home is not a separator there: the factory accepts `C:\a/b`
with the one component `a/b`, which every path below it then contains. -/
theorem createPath_home_slash :
    ∃ home p : SFTPFilePath,
      sftpFilePathFactory true (wstr ['C', ':', '\\', 'a', '/', 'b']) = .ok home ∧
      createPath true home (wstr ['x']) = .ok p ∧
      p.path = [wstr ['a', '/', 'b'], wstr ['x']] ∧
      ¬ ∀ c ∈ p.path, L '/' ∉ c := by
  refine ⟨_, _, rfl, rfl, rfl, ?_⟩
  decide

end Shiesh.Sftp
