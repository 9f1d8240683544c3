import Shiesh.Sftp.Realpath

/-!
# The Server Stays in the Jail

The server cannot tell its system from one in which everything outside of the home directory is
another system's, so it never opens, creates, looks at, changes, renames or deletes anything there.
The mask of `FindFirstFile` is no part of this: it is made from the path of a handle.
-/

namespace Shiesh.Sftp

open Shiesh.Lib List

/-- A name for the system that is below the home directory -/
def Inside (home : SFTPFilePath) (w : WString) : Prop :=
  ∃ p : SFTPFilePath, BelowHome home.toPath p.toPath ∧ p.getForCall true = .ok w

variable {ω α β : Type}

open Classical in
/-- `f` for the names inside, `g` for the others -/
noncomputable def inside (home : SFTPFilePath) (f g : WString → β) (w : WString) : β :=
  if Inside home w then f w else g w

/-- The same for two names -/
noncomputable def inside₂ (home : SFTPFilePath) (f g : WString → WString → β)
    (w : WString) : WString → β :=
  inside home (inside home f g w) (g w)

/-- The system `os`, in which the names outside of the home directory are those of `alt` -/
noncomputable def Win32.confined (os alt : Win32 ω) (home : SFTPFilePath) : Win32 ω :=
  { os with
    createFile := inside home os.createFile alt.createFile
    getFileAttributesEx := inside home os.getFileAttributesEx alt.getFileAttributesEx
    getFileAttributes := inside home os.getFileAttributes alt.getFileAttributes
    setFileAttributes := inside home os.setFileAttributes alt.setFileAttributes
    deleteFile := inside home os.deleteFile alt.deleteFile
    createDirectory := inside home os.createDirectory alt.createDirectory
    removeDirectory := inside home os.removeDirectory alt.removeDirectory
    createHardLink := inside₂ home os.createHardLink alt.createHardLink
    moveFileEx := inside₂ home os.moveFileEx alt.moveFileEx }

variable {home p q : SFTPFilePath} {w : WString}

theorem inside_eq (hw : Inside home w) (f g : WString → β) : inside home f g w = f w := if_pos hw

theorem liftPath_congr {x : Except PathError β} {k k' : β → SftpM ω α}
    (h : ∀ a, x = .ok a → k a = k' a) : liftPath x >>= k = liftPath x >>= k' := by
  cases x with
  | error e => rfl
  | ok a => exact h a rfl

/-- The directories on the way to a path, from the home directory on -/
theorem BelowHome.nFirstDirs {k : Nat} (h : BelowHome home.toPath p.toPath)
    (hk : home.nDirs ≤ k) (hq : p.nFirstDirs true k = .ok q) : BelowHome home.toPath q.toPath := by
  obtain ⟨r, hr, hq⟩ := except_bind_eq_ok hq
  rw [Path.nFirstDirs] at hr
  split at hr <;> cases hr
  rw [sftpFilePath] at hq
  split at hq
  · exact absurd hq throwInvalid_ne_ok
  cases hq
  obtain ⟨first, rest, hpath, hfirst, hrest⟩ := h.split
  refine ⟨h.absolute, h.drive, fun c hc => h.plain c (mem_of_mem_take hc), ?_,
    fun hslash c hc => h.noSlash hslash c (mem_of_mem_take hc)⟩
  refine ⟨first, rest.take (k - first.length), ?_, hfirst, fun c hc => hrest c (mem_of_mem_take hc)⟩
  rw [hpath, take_append, take_of_length_le (hfirst.length_eq.trans_le hk)]

section Handlers

variable {os alt : Win32 ω} (hhome : ∀ c ∈ home.path, IsPlainDir c)
include hhome

/-- The name that a handler has made from the client's is inside. -/
theorem named_congr {name : Bytes} {k k' : SFTPFilePath → WString → SftpM ω α}
    (h : ∀ p w, createPath true home (fromUTF8 os name) = .ok p → Inside home w → k p w = k' p w) :
    (makePath os home name >>= fun p => forCall p >>= k p) =
      makePath os home name >>= fun p => forCall p >>= k' p :=
  liftPath_congr fun p hp => liftPath_congr fun w hw =>
    h p w hp ⟨p, createPath_ok hhome hp, hw⟩

theorem processOpen_confined : processOpen (os.confined alt home) home = processOpen os home := by
  refine congrArg (guarded os) (funext fun id => bind_congr fun _ => bind_congr fun _ => ?_)
  refine bind_congr fun _ => named_congr hhome fun p w _ hw => ?_
  simp only [Win32.confined, inside_eq hw, openHandle]

theorem processOpendir_confined :
    processOpendir (os.confined alt home) home = processOpendir os home := by
  refine congrArg (guarded os) (funext fun id => bind_congr fun _ => ?_)
  refine named_congr hhome fun p w _ hw => ?_
  simp only [Win32.confined, inside_eq hw, openHandle]

theorem processDoStat_confined :
    processDoStat (os.confined alt home) home = processDoStat os home := by
  refine congrArg (guarded os) (funext fun id => bind_congr fun _ => ?_)
  refine named_congr hhome fun p w _ hw => ?_
  exact congrArg (replyAttrib id) (inside_eq hw _ _)

theorem processSetstat_confined :
    processSetstat (os.confined alt home) home = processSetstat os home := by
  have hnamed : setstatNamed (os.confined alt home) home = setstatNamed os home := by
    refine funext fun name => bind_congr fun a => liftPath_congr fun p hp => ?_
    refine if_congr Iff.rfl rfl (if_congr Iff.rfl (liftPath_congr fun w hw => ?_) rfl)
    simp only [Win32.confined, inside_eq ⟨p, createPath_ok hhome hp, hw⟩]
  unfold processSetstat
  rw [hnamed]
  rfl

theorem removeWith_confined (delete delete' : WString → Api ω Bool) :
    removeWith (os.confined alt home) home (inside home delete delete') =
      removeWith os home delete := by
  refine bind_congr fun id => bind_congr fun _ => ?_
  refine named_congr hhome fun p w _ hw => ?_
  rw [inside_eq hw]

omit hhome in
theorem createDirectories_confined (hp : BelowHome home.toPath p.toPath)
    {ks : List Nat} (hks : ∀ k ∈ ks, home.nDirs ≤ k) :
    createDirectories (os.confined alt home) p ks = createDirectories os p ks := by
  induction ks with
  | nil => rfl
  | cons k ks ih =>
    have hrest := ih fun k hk => hks k (mem_cons_of_mem _ hk)
    refine liftPath_congr fun q hq => ?_
    have hin : ∀ {w}, q.getForCall true = .ok w → Inside home w :=
      fun hw => ⟨q, hp.nFirstDirs (hks k mem_cons_self) hq, hw⟩
    refine liftPath_congr fun w hw => ?_
    simp only [hrest]
    simp only [Win32.confined, inside_eq (hin hw)]
    refine bind_congr fun found => ?_
    cases found with
    | some _ => rfl
    | none =>
      refine liftPath_congr fun w hw => ?_
      rw [inside_eq (hin hw)]

theorem processMkdir_confined :
    processMkdir (os.confined alt home) home = processMkdir os home := by
  refine bind_congr fun id => bind_congr fun _ => bind_congr fun _ => ?_
  refine named_congr hhome fun p w hp hw => ?_
  have hpath : createDirectoryPath (os.confined alt home) p = createDirectoryPath os p := by
    refine createDirectories_confined (createPath_ok hhome hp) fun k hk => ?_
    have hk := (mem_range'_1.mp hk).1
    rw [createPath_pos hp] at hk
    omega
  simp only [hpath]
  simp only [Win32.confined, inside_eq hw]

theorem processRename_confined :
    processRename (os.confined alt home) home = processRename os home := by
  refine bind_congr fun id => bind_congr fun _ => bind_congr fun _ => ?_
  refine liftPath_congr fun p hp => liftPath_congr fun q hq => ?_
  refine liftPath_congr fun old hold => liftPath_congr fun new hnew => ?_
  simp only [renameStatus, moveToNew, move, Win32.confined, inside₂,
    inside_eq ⟨p, createPath_ok hhome hp, hold⟩, inside_eq ⟨q, createPath_ok hhome hq, hnew⟩]

end Handlers

set_option maxRecDepth 2000 in
/-- **The jail.** For a home `letter:\rest` that the factory accepts, `process` does the same in
every system as in one in which everything outside of the home is different. -/
theorem process_confined (os alt : Win32 ω) (letter : WChar) (rest : WString)
    (hletter : isAsciiLetter letter = true)
    (hhome : sftpFilePathFactory true (letter :: L ':' :: L '\\' :: rest) = .ok home) :
    process (os.confined alt home) home = process os home := by
  have hplain : ∀ c ∈ home.path, IsPlainDir c := fun c hc =>
    ((sftpFilePathFactory_ok (· ∈ rest) hletter (fun _ hx => hx) hhome).2 c hc).1
  have hremove : processRemove (os.confined alt home) home = processRemove os home :=
    removeWith_confined hplain _ _
  have hrmdir : processRmdir (os.confined alt home) home = processRmdir os home :=
    removeWith_confined hplain _ _
  refine bind_congr fun _ => bind_congr fun type => congrArg (· >>= _) ?_
  simp only [dispatch, processStat, processLstat, processDoStat_confined hplain,
    processSetstat_confined hplain, processOpen_confined hplain,
    processOpendir_confined hplain, processMkdir_confined hplain,
    processRename_confined hplain, hremove, hrmdir]
  -- the other requests have no names in them
  rfl

theorem process_confined_home :
    process ((brokenSystem 2).confined (brokenSystem 5) someHome) someHome =
      process (brokenSystem 2) someHome :=
  process_confined _ _ (L 'c') (wstr ['h', 'o', 'm', 'e']) (by decide) rfl

end Shiesh.Sftp
