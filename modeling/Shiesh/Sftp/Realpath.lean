import Shiesh.Sftp.PathParser
import Shiesh.Sftp.Server

/-!
# SSH2_FXP_REALPATH

The answer to SSH2_FXP_REALPATH is the path in the client's form. When the client sends it back,
`create_path` has to come to the same path. The text of a path is read back as it was printed, as
long as no component contains a `'/'`. A component of the home may contain one: there it is not a
separator.
-/

namespace Shiesh.Sftp

open Shiesh.Lib List Bool
open Path (eqv init joinDirs nDirs)

variable {ω : Type}

/-! ## §1 The text of a path, read back -/

section Text

variable {cs : List WString} {c : WString} {d : WChar}

/-- Components as the client can name them -/
def IsClientDir (c : WString) : Prop := IsPlainDir c ∧ L '/' ∉ c

theorem joinDirs_cons (separator : WChar) (c d : WString) (cs : List WString) :
    joinDirs separator (c :: d :: cs) = c ++ separator :: joinDirs separator (d :: cs) := rfl

theorem replaceSlashes_append (s t : WString) :
    replaceSlashes (s ++ t) = replaceSlashes s ++ replaceSlashes t := map_append

theorem replaceSlashes_cons (x : WChar) (s : WString) :
    replaceSlashes (x :: s) = (if x = L '/' then L '\\' else x) :: replaceSlashes s := rfl

theorem replaceSlashes_of_notMem (h : L '/' ∉ c) : replaceSlashes c = c := by
  conv_rhs => rw [← map_id c]
  apply map_congr_left
  intro x hx
  exact if_neg fun heq => h (by rw [← heq]; exact hx)

/-- The client's form, with the separators of the system -/
theorem replaceSlashes_joinDirs (h : ∀ c ∈ cs, L '/' ∉ c) :
    replaceSlashes (joinDirs (L '/') cs) = joinDirs (L '\\') cs := by
  induction cs with
  | nil => rfl
  | cons c cs ih =>
    obtain ⟨hc, hcs⟩ := forall_mem_cons.mp h
    cases cs with
    | nil => exact replaceSlashes_of_notMem hc
    | cons d cs =>
      rw [joinDirs_cons, joinDirs_cons, replaceSlashes_append, replaceSlashes_cons,
        if_pos rfl, ih hcs,
        replaceSlashes_of_notMem hc]

/-- Nothing is collapsed in a component. -/
theorem collapseSlashes_append (hc : L '\\' ∉ c) (hne : c ≠ []) (b : Bool) (s : WString) :
    collapseSlashes b (c ++ s) = c ++ collapseSlashes false s := by
  induction c generalizing b with
  | nil => exact absurd rfl hne
  | cons x c ih =>
    obtain ⟨hx, hc⟩ := not_or.mp (mt mem_cons.mpr hc)
    rw [cons_append, collapseSlashes, if_neg (Ne.symm hx), cons_append]
    cases c with
    | nil => rfl
    | cons y c => rw [ih hc (cons_ne_nil y c)]

theorem collapseSlashes_joinDirs (h : ∀ c ∈ cs, IsDir c) (b : Bool) :
    collapseSlashes b (joinDirs (L '\\') cs) = joinDirs (L '\\') cs := by
  induction cs generalizing b with
  | nil => rfl
  | cons c cs ih =>
    obtain ⟨⟨hne, hc⟩, hcs⟩ := forall_mem_cons.mp h
    have hslash : L '\\' ∉ c := fun hmem => (hc _ hmem).1 rfl
    cases cs with
    | nil =>
      have happend := collapseSlashes_append hslash hne b []
      rw [append_nil, collapseSlashes, append_nil] at happend
      exact happend
    | cons d cs =>
      rw [joinDirs_cons, collapseSlashes_append hslash hne, collapseSlashes, if_pos rfl,
        if_neg Bool.false_ne_true, ih hcs]

theorem parsePath_joinDirs {ndebug : Bool} {drive : WChar} (path : List WString)
    (h : ∀ c ∈ cs, IsDir c) :
    parsePath ndebug false [] drive path (joinDirs (L '\\') cs) = .ok (drive, path ++ cs) := by
  induction cs generalizing path with
  | nil => rw [joinDirs, parsePath, if_pos rfl, append_nil]
  | cons c cs ih =>
    obtain ⟨⟨hne, hc⟩, hcs⟩ := forall_mem_cons.mp h
    have hword : ∀ x ∈ c, isSeparator x = false := fun x hx => isSeparator_eq_false.mpr (hc x hx)
    cases cs with
    | nil => rw [joinDirs, parsePath_last hword, if_neg hne]
    | cons d cs =>
      rw [joinDirs_cons, parsePath_append hword, nil_append, parsePath_component rfl hne, ih _ hcs,
        append_assoc, singleton_append]

theorem mem_joinDirs {separator x : WChar} (h : x ∈ joinDirs separator cs) :
    x = separator ∨ ∃ c ∈ cs, x ∈ c := by
  induction cs with
  | nil => exact absurd h not_mem_nil
  | cons c cs ih =>
    cases cs with
    | nil => exact .inr ⟨c, mem_cons_self, h⟩
    | cons d cs =>
      rw [joinDirs_cons] at h
      rcases mem_append.mp h with hc | hrest
      · exact .inr ⟨c, mem_cons_self, hc⟩
      · rcases mem_cons.mp hrest with hx | hcs
        · exact .inl hx
        · refine (ih hcs).imp_right fun hmem => ?_
          obtain ⟨c', hc', hx⟩ := hmem
          exact ⟨c', mem_cons_of_mem _ hc', hx⟩

/-- The client's form of an absolute path, with the separators of the system -/
theorem sshPathText_drive (hd : isAsciiLetter d = true) (text : WString) :
    sshPathText (L '/' :: d :: L ':' :: L '/' :: text) =
      L '\\' :: d :: L ':' :: L '\\' :: collapseSlashes true (replaceSlashes text) := by
  have hletter : d ≠ L '/' ∧ d ≠ L '\\' := by
    refine ⟨?_, ?_⟩ <;>
      · rintro rfl
        revert hd
        decide
  have hreplaced : replaceSlashes (L '/' :: d :: L ':' :: L '/' :: text) =
      L '\\' :: d :: L ':' :: L '\\' :: replaceSlashes text := by
    simp only [replaceSlashes_cons, if_neg hletter.1]
    rfl
  have hcollapsed : collapseSlashes false (L '\\' :: d :: L ':' :: L '\\' :: replaceSlashes text) =
      L '\\' :: d :: L ':' :: L '\\' :: collapseSlashes true (replaceSlashes text) := by
    have hcolon : L ':' ≠ L '\\' := by decide
    simp only [collapseSlashes, if_true, if_neg hletter.2, if_neg hcolon, false_eq_true, if_false]
  rw [sshPathText, hreplaced, hcollapsed]
  rfl

/-- **The text of a path is read back.** -/
theorem shieSSHPath_unixForm {ndebug : Bool} (hd : isAsciiLetter d = true)
    (hlower : tolower d = d) (h : ∀ c ∈ cs, IsClientDir c) :
    shieSSHPath ndebug (sshPathText (L '/' :: d :: L ':' :: L '/' :: joinDirs (L '/') cs)) =
      .ok { path := cs, drive := d, isRelative := false } := by
  have hdirs : ∀ c ∈ cs, IsDir c := fun c hc => (h c hc).1.1
  have htext := sshPathText_drive hd (joinDirs (L '/') cs)
  rw [replaceSlashes_joinDirs fun c hc => (h c hc).2, collapseSlashes_joinDirs hdirs] at htext
  have hcolon : ((d :: L ':' :: L '\\' :: joinDirs (L '\\') cs).drop 2).contains (L ':') =
      false := by
    rw [eq_false_iff]
    intro hmem
    rcases mem_cons.mp (contains_iff_mem.mp hmem) with hslash | hmem
    · cases hslash
    · rcases mem_joinDirs hmem with hslash | ⟨c, hc, hx⟩
      · cases hslash
      · exact ((hdirs c hc).2 _ hx).2 rfl
  have hquestion : d ≠ L '?' := (isAsciiLetter_ne hd).2
  have hparse : parsePath ndebug (d != L '?') [] d []
    (d :: L ':' :: L '\\' :: joinDirs (L '\\') cs) =
      .ok (d, cs) := by
    rw [bne_iff_ne.mpr hquestion, parsePath_letter _ hd, hlower, parsePath_joinDirs [] hdirs,
      nil_append]
  rw [htext]
  show (init ndebug _).bind _ = _
  rw [init_parsed (passedOn htext) hcolon, driveOf_colon, hparse]
  have hwell : wellFormed (parsedPath (d :: L ':' :: L '\\' :: joinDirs (L '\\') cs) (d, cs)) =
      true := by
    simp [wellFormed, parsedPath, Path.hasDriveLetter, hquestion]
  show ((assertThat ndebug (wellFormed _)).bind _).bind _ = _
  rw [hwell]
  show Except.ok _ = _
  simp [parsedPath, Path.hasDriveLetter, hquestion]

end Text

/-! ## §2 The check of the home -/

section Home

variable {home : Path} {p : Path}

theorem rangeEqual_of_forall₂ {α : Type} {eq : α → α → Bool} {a b : List α}
    (h : List.Forall₂ (fun x y => eq x y = true) a b) : rangeEqual eq a b = true := by
  induction h with
  | nil => rfl
  | cons hxy _ ih => rw [rangeEqual, hxy, ih, Bool.and_self]

/-- What lies below the home passes its check. -/
theorem belowHome_of (hrelative : p.isRelative = home.isRelative) (h : BelowHome home p) :
    belowHome home p = true := by
  obtain ⟨first, rest, hsplit, hfirst, -⟩ := h.split
  have hlen : first.length = home.path.length := hfirst.length_eq
  have htake : p.path.take home.nDirs = first := by
    rw [hsplit, nDirs, ← hlen, take_left]
  have hmany : ¬home.nDirs > p.nDirs := by
    rw [nDirs, nDirs, hsplit, length_append]
    omega
  rw [belowHome, Path.nFirstDirs, if_neg hmany]
  simp only [eqv, hrelative, h.drive, htake, beq_self_eq_true, Bool.and_self, if_true, hlen,
    rangeEqual_of_forall₂ hfirst, Bool.or_true]

theorem exists_of_forall₂ {α β : Type} {R : α → β → Prop} {a : List α} {b : List β} {y : β}
    (h : List.Forall₂ R a b) (hy : y ∈ b) : ∃ x ∈ a, R x y := by
  induction h with
  | nil => exact absurd hy not_mem_nil
  | cons hxy _ ih =>
    rcases mem_cons.mp hy with rfl | hy
    · exact ⟨_, mem_cons_self, hxy⟩
    · obtain ⟨x, hx, hR⟩ := ih hy
      exact ⟨x, mem_cons_of_mem _ hx, hR⟩

/-- Case does not matter for a `'/'`. -/
theorem slash_of_equalIgnoreCase {x y : WString} (h : isEqualIgnoreCase x y = true)
    (hy : L '/' ∈ y) :
    L '/' ∈ x := by
  simp only [isEqualIgnoreCase, and_eq_true, beq_iff_eq] at h
  obtain ⟨a, ha, hsame⟩ := exists_of_forall₂ (rangeEqual_forall₂ x y h.1 h.2) hy
  have hslash : tolower a = L '/' := beq_iff_eq.mp hsame
  rw [← (tolower_eq_iff (by decide) (by decide) a).mp hslash]
  exact ha

/-- A path below the home has a `'/'` wherever the home has one. -/
theorem BelowHome.home_noSlash (h : BelowHome home p) (hp : ∀ c ∈ p.path, L '/' ∉ c) :
    ∀ c ∈ home.path, L '/' ∉ c := by
  obtain ⟨first, rest, hsplit, hfirst, -⟩ := h.split
  intro c hc hslash
  obtain ⟨d, hd, hsame⟩ := exists_of_forall₂ hfirst hc
  refine hp d ?_ (slash_of_equalIgnoreCase hsame hslash)
  rw [hsplit]
  exact mem_append_left _ hd

end Home

/-! ## §3 Main result -/

/-- The answer to SSH2_FXP_REALPATH -/
def realpath (ndebug : Bool) (os : Win32 ω) (home : SFTPFilePath) (name : Bytes) :
    Except PathError Bytes := do
  let path ← createPath ndebug home (fromUTF8 os name)
  let text ← path.unixForm ndebug
  .ok (toUTF8 os text)

theorem liftPath_bind {α β : Type} (x : Except PathError α) (f : α → Except PathError β) :
    (liftPath (x >>= f) : SftpM ω β) = liftPath x >>= fun a => liftPath (f a) := by
  cases x <;> rfl

/-- `process_realpath` sends this text, as the name and as the long name. -/
theorem processRealpath_eq (os : Win32 ω) (home : SFTPFilePath) :
    processRealpath os home = guarded os fun id => (do
      let name ← getString
      let text ← liftPath (realpath true os home name)
      sendNames id [{ name := text, longName := text, attrib := {} }]
      pure Fx.ok) := by
  refine congrArg (guarded os) (funext fun id => congrArg (getString >>= ·) (funext fun name => ?_))
  simp only [realpath, liftPath_bind, makePath, bind_assoc]
  rfl

section Result

variable {ndebug : Bool} {home p : SFTPFilePath} {s : WString}

theorem sftpFilePath_pos {pth : Path} {n : Nat} (h : sftpFilePath ndebug pth n = .ok p) :
    p.nUserHomePos = n := by
  unfold sftpFilePath at h
  split at h
  · exact absurd h throwInvalid_ne_ok
  · cases h
    rfl

theorem createPath_pos (h : createPath ndebug home s = .ok p) : p.nUserHomePos = home.nDirs := by
  obtain ⟨path, hssh, h⟩ := except_bind_eq_ok h
  simp only at h
  split at h
  · exact absurd h throwInvalid_ne_ok
  split at h
  · obtain ⟨res, hres, h⟩ := except_bind_eq_ok h
    exact sftpFilePath_pos h
  split at h
  · exact absurd h throwInvalid_ne_ok
  · exact sftpFilePath_pos h

/-- The client's form of a path with a drive letter -/
theorem unixForm_eq (p : SFTPFilePath) (hdrive : p.drive ≠ L '?') :
    p.unixForm ndebug =
      .ok (L '/' :: p.drive :: L ':' :: L '/' :: joinDirs (L '/') p.path) := by
  have hhas : p.hasDriveLetter = true := bne_iff_ne.mpr hdrive
  simp only [Path.unixForm, Path.toStringGeneric, hhas, p.notRelative, Bool.or_true]
  rfl

/-- **What `create_path` has returned it accepts again**, if the client can name the components. -/
theorem createPath_unixForm (hletter : isAsciiLetter home.drive = true)
    (hlower : tolower home.drive = home.drive) (hbelow : BelowHome home.toPath p.toPath)
    (hpos : p.nUserHomePos = home.nDirs) (hdirs : ∀ c ∈ p.path, L '/' ∉ c) :
    createPath ndebug home (L '/' :: p.drive :: L ':' :: L '/' :: joinDirs (L '/') p.path) =
      .ok p := by
  have hclient : ∀ c ∈ p.path, IsClientDir c := fun c hc => ⟨hbelow.plain c hc, hdirs c hc⟩
  have hparsed : shieSSHPath ndebug (sshPathText
      (L '/' :: home.drive :: L ':' :: L '/' :: joinDirs (L '/') p.path)) =
      .ok { path := p.path, drive := home.drive, isRelative := false } :=
    shieSSHPath_unixForm hletter hlower hclient
  have hnormal : normalizeDirs p.path = (p.path, true) :=
    normalizeDirs_names fun c hc => (hbelow.plain c hc).2
  have hcheck : belowHome home.toPath { path := p.path, drive := home.drive, isRelative := false } =
      true := by
    refine belowHome_of home.notRelative.symm ?_
    exact { hbelow with absolute := rfl, drive := rfl }
  have hsame : ({ path := p.path, drive := home.drive, isRelative := false } : Path) =
      p.toPath := by
    rw [← hbelow.drive, ← p.notRelative]
  rw [hbelow.drive, createPath, hparsed]
  show (if (!(normalizeDirs p.path).2) = true then _ else _) = _
  rw [hnormal, if_neg fun hbad => Bool.false_ne_true hbad]
  simp only [Bool.false_eq_true, if_false, hcheck, Bool.not_true]
  rw [hsame, sftpFilePath, dif_neg (by rw [p.notRelative]; exact Bool.false_ne_true), ← hpos]

/-- The answer is read as an absolute path, whose components cannot contain a `'/'`. -/
theorem createPath_drive {text : WString} (hletter : isAsciiLetter d = true)
    (h : createPath ndebug home (L '/' :: d :: L ':' :: L '/' :: text) = .ok p) :
    ∀ c ∈ p.path, L '/' ∉ c := by
  obtain ⟨path, hssh, h⟩ := except_bind_eq_ok h
  obtain ⟨hdirs, hrelative⟩ := shieSSHPath_ok hssh
  have hdrive : path.hasDriveLetter = true := by
    rw [sshPathText_drive hletter] at hssh
    obtain ⟨q, hinit, hpath⟩ := except_bind_eq_ok
      (show (init ndebug _).bind (fun p => .ok { p with isRelative := !p.hasDriveLetter }) =
        .ok path from hssh)
    have hparse := init_ok hinit
    have hquestion := (isAsciiLetter_ne hletter).2
    rw [driveOf_colon, bne_iff_ne.mpr hquestion, parsePath_letter _ hletter] at hparse
    have hq : q.drive = tolower d := parsePath_drive hparse
    cases hpath
    show (q.drive != L '?') = true
    rw [hq, bne_iff_ne]
    exact fun heq => hquestion ((tolower_eq_iff (by decide) (by decide) d).mp heq)
  simp only at h
  split at h
  · exact absurd h throwInvalid_ne_ok
  case isFalse hnorm =>
  have hflag : (normalizeDirs path.path).2 = true := by simpa [Path.normalize] using hnorm
  have habsolute : ¬path.normalize.1.isRelative = true := by
    show ¬path.isRelative = true
    rw [hrelative, hdrive]
    exact false_ne_true
  rw [if_neg habsolute] at h
  split at h
  · exact absurd h throwInvalid_ne_ok
  · rw [sftpFilePath_ok h]
    intro c hc
    exact (hdirs c (normalizeDirs_clean hflag c hc).1).2

/-- A small letter stays as it is. -/
theorem tolower_letter {letter : WChar} (h : isAsciiLetter letter = true) :
    isAsciiLetter (tolower letter) = true ∧ tolower (tolower letter) = tolower letter := by
  simp only [isAsciiLetter, or_eq_true, and_eq_true, decide_eq_true_eq,
    UInt16.le_iff_toNat_le, UInt16.reduceToNat] at h ⊢
  by_cases hupper : 0x41 ≤ letter ∧ letter ≤ 0x5a
  · have hlow : tolower letter = letter + 0x20 := if_pos hupper
    rw [UInt16.le_iff_toNat_le, UInt16.le_iff_toNat_le] at hupper
    have hsum : (letter + 0x20).toNat = letter.toNat + 0x20 := by
      simp only [UInt16.toNat_add, UInt16.reduceToNat] at hupper ⊢
      omega
    rw [hlow, hsum]
    simp only [UInt16.reduceToNat] at hupper
    refine ⟨by omega, if_neg ?_⟩
    rw [UInt16.le_iff_toNat_le, UInt16.le_iff_toNat_le, hsum]
    simp only [UInt16.reduceToNat]
    omega
  · have hsame : tolower letter = letter := if_neg hupper
    rw [hsame, hsame]
    exact ⟨h, rfl⟩

/-- **REALPATH is idempotent.** For a home `letter:\rest` and a client string that `create_path`
accepts, the answer to SSH2_FXP_REALPATH is accepted again, with the same path and the same answer,
exactly if no component of the home contains a `'/'`. -/
theorem realpath_idempotent_iff (os : Win32 ω) (letter : WChar) (rest : WString)
    (hletter : isAsciiLetter letter = true)
    (hhome : sftpFilePathFactory ndebug (letter :: L ':' :: L '\\' :: rest) = .ok home)
    (name : Bytes) (hp : createPath ndebug home (fromUTF8 os name) = .ok p) (text : WString)
    (htext : p.unixForm ndebug = .ok text) (hinverse : fromUTF8 os (toUTF8 os text) = text) :
    (createPath ndebug home (fromUTF8 os (toUTF8 os text)) = .ok p ∧
      realpath ndebug os home (toUTF8 os text) = realpath ndebug os home name) ↔
    ∀ c ∈ home.path, L '/' ∉ c := by
  obtain ⟨hdrive, hdirs⟩ := sftpFilePathFactory_ok
    (fun _ => True) hletter (fun _ _ => trivial) hhome
  obtain ⟨hsmall, hlower⟩ := tolower_letter hletter
  rw [← hdrive] at hsmall hlower
  have hbelow := createPath_ok (fun c hc => (hdirs c hc).1) hp
  rw [unixForm_eq p (by rw [hbelow.drive]; exact (isAsciiLetter_ne hsmall).2)] at htext
  cases htext
  have hagain : createPath ndebug home
      (L '/' :: p.drive :: L ':' :: L '/' :: joinDirs (L '/') p.path) = .ok p ↔
      ∀ c ∈ home.path, L '/' ∉ c := by
    refine ⟨fun h => ?_, fun hnone => ?_⟩
    · exact hbelow.home_noSlash (createPath_drive (by rw [hbelow.drive]; exact hsmall) h)
    · exact createPath_unixForm hsmall hlower hbelow (createPath_pos hp) (hbelow.noSlash hnone)
  rw [realpath, realpath, hinverse, hp, ← hagain]
  exact ⟨fun h => h.1, fun h => ⟨h, by rw [h]⟩⟩

end Result

-- the home `C:\a` and the client string `/b/../c`
theorem realpath_idempotent_iff_sub :
    ∃ home p : SFTPFilePath,
      sftpFilePathFactory true (wstr ['C', ':', '\\', 'a']) = .ok home ∧
      createPath true home (wstr ['/', 'b', '/', '.', '.', '/', 'c']) = .ok p ∧
      p.unixForm true = .ok (wstr ['/', 'c', ':', '/', 'a', '/', 'c']) ∧
      createPath true home (wstr ['/', 'c', ':', '/', 'a', '/', 'c']) = .ok p ∧
      realpath true (brokenSystem 2) home (ascii "/c:/a/c") =
        realpath true (brokenSystem 2) home (ascii "/b/../c") := by
  refine ⟨_, _, rfl, rfl, rfl, ?_⟩
  exact (realpath_idempotent_iff (brokenSystem 2) (L 'C') (wstr ['a']) (by decide) rfl
    (ascii "/b/../c") rfl (wstr ['/', 'c', ':', '/', 'a', '/', 'c']) rfl (by decide)).mpr
    (by decide)

/-- For the home `C:\a/b` the answer to `x` is `/c:/a/b/x`, which `create_path` rejects. -/
theorem realpath_rejected :
    ∃ home : SFTPFilePath,
      sftpFilePathFactory true (wstr ['C', ':', '\\', 'a', '/', 'b']) = .ok home ∧
      realpath true (brokenSystem 2) home (ascii "x") = .ok (ascii "/c:/a/b/x") ∧
      fromUTF8 (brokenSystem 2) (ascii "/c:/a/b/x") =
        wstr ['/', 'c', ':', '/', 'a', '/', 'b', '/', 'x'] ∧
      createPath true home (wstr ['/', 'c', ':', '/', 'a', '/', 'b', '/', 'x']) =
        .error (.invalidPath (wstr ['c', ':', '\\', 'a', '\\', 'b', '\\', 'x'])
          " it points outside of the user home dir") := by
  refine ⟨_, rfl, ?_, ?_, ?_⟩
  · rfl
  · decide
  · rfl

end Shiesh.Sftp
