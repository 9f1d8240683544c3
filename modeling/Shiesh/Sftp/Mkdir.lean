import Shiesh.Sftp.Realpath
import Shiesh.Sftp.Statuses

/-!
# Making Directories

`process_mkdir` first tries to make the directory itself. When the last error is
ERROR_PATH_NOT_FOUND it makes, one after the other, those directories on the way from the home to
the target that it does not find. The last error is looked at also when the call has succeeded, and
is then one of an earlier call.

What has been made, and in which order, is written down beside the system.
-/

namespace Shiesh.Sftp

open Shiesh.Lib Shiesh.Channels List Function Path

variable {ω ι : Type} {os : Win32 ω}

/-! ## §1 Places in a tree -/

/-- The parts of a name as the system reads it: those of `\\?\c:\a` are `?`, `c:` and `a`. -/
def nameParts (name : WString) : List WString := (name.splitOn (L '\\')).filter (· ≠ [])

/-- A system with a tree of files and directories. What is at a place has its parent there too. A
call that fails leaves the tree alone, and a last error behind; the last error of one that succeeds
may be anything. -/
structure FolderTree (os : Win32 ω) (ι : Type) where
  -- names that differ in case only are the same
  fold : WString → WString
  fold_eq (a b : WString) : isEqualIgnoreCase a b = true → fold a = fold b
  entry : ω → List WString → Option ι
  parent (w : ω) (place : List WString) (part : WString) :
    entry w (place ++ [part]) ≠ none → entry w place ≠ none
  getFileAttributesEx_entry (name : WString) (w : ω) :
    entry (os.getFileAttributesEx name w).2 = entry w
  -- it may also fail for what is there
  getFileAttributesEx_value (name : WString) (w : ω) :
    (os.getFileAttributesEx name w).1.value ≠ none → entry w ((nameParts name).map fold) ≠ none
  createDirectory_entry (name : WString) (w : ω) :
    if (os.createDirectory name w).1.value then
      entry w ((nameParts name).map fold) = none ∧ ∃ folder : ι,
        entry (os.createDirectory name w).2 =
          Function.update (entry w) ((nameParts name).map fold) (some folder)
    else entry (os.createDirectory name w).2 = entry w
  createDirectory_error (name : WString) (w : ω) :
    (os.createDirectory name w).1.value = false → (os.createDirectory name w).1.lastError ≠ 0

namespace FolderTree

variable (T : FolderTree os ι)

/-- Where a name leads -/
def place (name : WString) : List WString := (nameParts name).map T.fold

/-- There is something at the place of a path. -/
def Has (w : ω) (p : Path) : Prop := T.entry w (T.place p.systemName) ≠ none

theorem entry_of_append {w : ω} {place more : List WString} (h : T.entry w (place ++ more) ≠ none) :
    T.entry w place ≠ none := by
  induction more using reverseRecOn with
  | nil => rwa [append_nil] at h
  | append_singleton more part ih =>
    rw [← append_assoc] at h
    exact ih (T.parent w _ part h)

end FolderTree

theorem joinDirs_eq_intercalate (separator : WChar) (cs : List WString) :
    joinDirs separator cs = [separator].intercalate cs := by
  induction cs with
  | nil => rfl
  | cons c cs ih =>
    cases cs with
    | nil => rw [intercalate_singleton, joinDirs]
    | cons d cs =>
      rw [joinDirs_cons, intercalate_cons_cons, ih, append_assoc]
      rfl

theorem IsDir.noBackslash {c : WString} (h : IsDir c) : L '\\' ∉ c := fun hx => (h.2 _ hx).1 rfl

/-- The components of a path are parts of a name; without components there is an empty part. -/
theorem joinDirs_parts {cs : List WString} (hdirs : ∀ c ∈ cs, IsDir c) :
    ∃ part parts, joinDirs (L '\\') cs = [L '\\'].intercalate (part :: parts) ∧
      (∀ c ∈ part :: parts, L '\\' ∉ c) ∧ (part :: parts).filter (· ≠ []) = cs := by
  cases cs with
  | nil => exact ⟨[], [], rfl, by simp, rfl⟩
  | cons c cs =>
    refine ⟨c, cs, joinDirs_eq_intercalate _ _, fun d hd => (hdirs d hd).noBackslash, ?_⟩
    exact filter_eq_self.mpr fun d hd => decide_eq_true (hdirs d hd).1

/-- The parts of the name of a path with a drive letter -/
theorem nameParts_systemName (p : Path) (habsolute : p.isRelative = false)
    (hletter : isAsciiLetter p.drive = true) (hdirs : ∀ c ∈ p.path, IsDir c) :
    nameParts p.systemName = [[L '?'], [p.drive, L ':']] ++ p.path := by
  obtain ⟨part, parts, hjoin, hparts, hfilter⟩ := joinDirs_parts hdirs
  have hdrive := isSeparator_eq_false.mp (isAsciiLetter_ne hletter).1
  have hname : p.systemName =
      [L '\\'].intercalate ([[], [], [L '?'], [p.drive, L ':']] ++ part :: parts) := by
    have hhas : (!p.isRelative && p.hasDriveLetter) = true := by
      rw [habsolute]
      exact bne_iff_ne.mpr (isAsciiLetter_ne hletter).2
    rw [systemName, if_pos hhas, hjoin]
    rfl
  have hfront : ∀ c ∈ [[], [], [L '?'], [p.drive, L ':']], L '\\' ∉ c := by
    intro c hc
    simp only [mem_cons, not_mem_nil, or_false] at hc
    rcases hc with rfl | rfl | rfl | rfl
    · simp
    · simp
    · decide
    · simp only [mem_cons, not_mem_nil, or_false, not_or]
      exact ⟨hdrive.1.symm, by decide⟩
  rw [nameParts, hname, splitOn_intercalate _ (fun c hc => ?_) (by simp), filter_append,
    hfilter]
  · rfl
  · exact (mem_append.mp hc).elim (hfront c) (hparts c)

/-- The path up to its `k`-th component -/
def Path.firstDirs (p : Path) (k : Nat) : Path := { p with path := p.path.take k }

theorem Path.firstDirs_self (p : Path) : p.firstDirs p.nDirs = p := by
  rw [firstDirs, nDirs, take_length]

/-- A path with a drive letter, as `create_path` makes it from a home with one -/
structure OnDrive (p : Path) : Prop where
  absolute : p.isRelative = false
  letter : isAsciiLetter p.drive = true
  dirs : ∀ c ∈ p.path, IsDir c

theorem OnDrive.firstDirs {p : Path} (hp : OnDrive p) (k : Nat) : OnDrive (p.firstDirs k) where
  absolute := hp.absolute
  letter := hp.letter
  dirs c hc := hp.dirs c (mem_of_mem_take hc)

section Places

variable (T : FolderTree os ι) {p : Path} {w : ω}

theorem FolderTree.place_path (hp : OnDrive p) :
    T.place p.systemName = [T.fold [L '?'], T.fold [p.drive, L ':']] ++ p.path.map T.fold := by
  rw [FolderTree.place, nameParts_systemName p hp.absolute hp.letter hp.dirs, map_append]
  rfl

/-- What is there is in a directory that is there. -/
theorem FolderTree.has_firstDirs (hp : OnDrive p) (h : T.Has w p) (k : Nat) :
    T.Has w (p.firstDirs k) := by
  have hsplit : T.place p.systemName =
      T.place (p.firstDirs k).systemName ++ (p.path.drop k).map T.fold := by
    rw [T.place_path hp, T.place_path (hp.firstDirs k), append_assoc, firstDirs,
      ← map_append, take_append_drop]
  rw [FolderTree.Has, hsplit] at h
  exact T.entry_of_append h

theorem FolderTree.map_fold {cs ds : List WString}
    (h : List.Forall₂ (fun x y => isEqualIgnoreCase x y = true) cs ds) :
    cs.map T.fold = ds.map T.fold := by
  induction h with
  | nil => rfl
  | cons hc _ ih => rw [map_cons, map_cons, T.fold_eq _ _ hc, ih]

/-- A path below the home begins at the home, be it written differently. -/
theorem FolderTree.has_home {home : Path} (hhome : OnDrive home) (hp : OnDrive p)
    (hbelow : BelowHome home p) (h : T.Has w home) : T.Has w (p.firstDirs home.nDirs) := by
  obtain ⟨first, rest, hsplit, hsame, -⟩ := hbelow.split
  have htake : p.path.take home.nDirs = first := by
    rw [hsplit, nDirs, ← hsame.length_eq, take_left]
  have hfold := T.map_fold hsame
  have hplace : T.place (p.firstDirs home.nDirs).systemName = T.place home.systemName := by
    rw [T.place_path (hp.firstDirs _), T.place_path hhome, firstDirs, htake, hfold, hbelow.drive]
  rw [FolderTree.Has, hplace]
  exact h

end Places

/-! ## §2 What has been made -/

/-- The same system, with the names of the directories that have been made -/
def Win32.recording (os : Win32 ω) : Win32 (ω × List WString) :=
  { os.beside (List WString) with
    createDirectory := fun name w =>
      let r := os.createDirectory name w.1
      (r.1, r.2, if r.1.value then w.2 ++ [name] else w.2) }

/-- From `w` to `w'` the first `k` components of the path have been made for these `k`, in this
order, where there was nothing before, and no other place has changed. -/
structure Made (T : FolderTree os ι) (p : Path) (ks : List Nat)
    (w w' : ω × List WString) : Prop where
  record : w'.2 = w.2 ++ ks.map fun k => (p.firstDirs k).systemName
  fresh : ∀ k ∈ ks, ¬T.Has w.1 (p.firstDirs k)
  others : ∀ place, T.entry w'.1 place ≠ T.entry w.1 place →
    ∃ k ∈ ks, place = T.place (p.firstDirs k).systemName

namespace Made

variable {T : FolderTree os ι} {p : Path} {ks js : List Nat} {w w1 w' : ω × List WString}
  {place : List WString}

theorem none (hrecord : w'.2 = w.2) (hentry : T.entry w'.1 = T.entry w.1) : Made T p [] w w' where
  record := by rw [hrecord, map_nil, append_nil]
  fresh _ hk := by cases hk
  others place hne := absurd (congrFun hentry place) hne

/-- What was there is still the same. -/
theorem kept (h : Made T p ks w w') (hplace : T.entry w.1 place ≠ Option.none) :
    T.entry w'.1 place = T.entry w.1 place := by
  by_contra hne
  obtain ⟨k, hk, rfl⟩ := h.others place hne
  exact h.fresh k hk hplace

theorem has (h : Made T p ks w w') {q : Path} (hq : T.Has w.1 q) : T.Has w'.1 q := by
  rw [FolderTree.Has, h.kept hq]
  exact hq

theorem trans (h : Made T p js w w1) (h' : Made T p ks w1 w') : Made T p (js ++ ks) w w' where
  record := by rw [h'.record, h.record, map_append, append_assoc]
  fresh k hk := by
    rcases mem_append.mp hk with hj | hk
    · exact h.fresh k hj
    · exact fun hhas => h'.fresh k hk (h.has hhas)
  others place hne := by
    by_cases hfirst : T.entry w1.1 place = T.entry w.1 place
    · rw [← hfirst] at hne
      obtain ⟨k, hk, hplace⟩ := h'.others place hne
      exact ⟨k, mem_append_right js hk, hplace⟩
    · obtain ⟨k, hk, hplace⟩ := h.others place hfirst
      exact ⟨k, mem_append_left ks hk, hplace⟩

end Made

section Calls

variable (T : FolderTree os ι) (p : Path) (k : Nat) (w : ω × List WString)

/-- `CreateDirectoryW` on a part of the path -/
theorem createDirectory_made :
    let r := os.recording.createDirectory (p.firstDirs k).systemName w
    if r.1.value then Made T p [k] w r.2 ∧ T.Has r.2.1 (p.firstDirs k)
    else Made T p [] w r.2 ∧ r.1.lastError ≠ 0 := by
  have hentry := T.createDirectory_entry (p.firstDirs k).systemName w.1
  have herror := T.createDirectory_error (p.firstDirs k).systemName w.1
  simp only [Win32.recording]
  by_cases hvalue : (os.createDirectory (p.firstDirs k).systemName w.1).1.value = true
  · rw [if_pos hvalue] at hentry
    obtain ⟨hfree, folder, hmade⟩ := hentry
    simp only [if_pos hvalue]
    refine ⟨⟨rfl, fun j hj => ?_, fun place hne => ?_⟩, ?_⟩
    · rw [mem_singleton.mp hj]
      exact fun hhas => hhas hfree
    · refine ⟨k, mem_singleton_self k, ?_⟩
      by_contra hother
      exact hne (by rw [hmade]; exact update_of_ne hother _ _)
    · show T.entry _ (T.place _) ≠ none
      rw [hmade, FolderTree.place, update_self]
      exact Option.some_ne_none folder
  · rw [if_neg hvalue] at hentry
    simp only [if_neg hvalue]
    exact ⟨.none rfl hentry, herror (Bool.eq_false_iff.mpr hvalue)⟩

theorem getFileAttributesEx_made :
    let r := os.recording.getFileAttributesEx (p.firstDirs k).systemName w
    Made T p [] w r.2 ∧ (r.1.value ≠ none → T.Has r.2.1 (p.firstDirs k)) := by
  have hentry := T.getFileAttributesEx_entry (p.firstDirs k).systemName w.1
  refine ⟨.none rfl hentry, fun hvalue => ?_⟩
  have hhas := T.getFileAttributesEx_value _ w.1 hvalue
  rw [← hentry] at hhas
  exact hhas

end Calls

/-! ## §3 The loop -/

theorem nFirstDirs_systemName {path : SFTPFilePath} {k : Nat} (hk : k ≤ path.nDirs) :
    ∃ q, path.nFirstDirs true k = .ok q ∧ q.systemName = (path.firstDirs k).systemName := by
  rw [SFTPFilePath.nFirstDirs, nFirstDirs, if_neg (not_lt.mpr hk)]
  show ∃ q, sftpFilePath true (path.firstDirs k) path.nUserHomePos = .ok q ∧ _
  rw [sftpFilePath, dif_neg (by rw [firstDirs, path.notRelative]; decide)]
  exact ⟨_, rfl, rfl⟩

/-- The loop for these numbers of components makes some of the directories, and it finds or makes
all of them if it does not fail. -/
def Makes (T : FolderTree os ι) (path : SFTPFilePath) (ks : List Nat) (w : ω × List WString)
    (b : Bool) (w' : ω × List WString) (err : UInt32) : Prop :=
  (∃ js, js.Sublist ks ∧ Made T path.toPath js w w') ∧
    if b then ∀ k ∈ ks, T.Has w'.1 (path.firstDirs k) else err ≠ 0

section Loop

variable {T : FolderTree os ι} {path : SFTPFilePath} {k : Nat} {ks js : List Nat}
  {w w1 w' : ω × List WString} {b : Bool} {err : UInt32}

theorem Makes.cons (hjs : js.Sublist [k]) (hmade : Made T path.toPath js w w1)
    (hhas : T.Has w1.1 (path.firstDirs k)) (h : Makes T path ks w1 b w' err) :
    Makes T path (k :: ks) w b w' err := by
  obtain ⟨⟨js', hjs', hmade'⟩, hall⟩ := h
  refine ⟨⟨js ++ js', hjs.append hjs', hmade.trans hmade'⟩, ?_⟩
  cases b with
  | false => exact hall
  | true =>
    intro j hj
    rcases mem_cons.mp hj with rfl | hj
    · exact hmade'.has hhas
    · exact hall j hj

theorem Makes.fails (hmade : Made T path.toPath [] w w') (herr : err ≠ 0) :
    Makes T path ks w false w' err := ⟨⟨[], nil_sublist ks, hmade⟩, herr⟩

theorem createDirectories_makes (T : FolderTree os ι) (path : SFTPFilePath) (ks : List Nat)
    (hks : ∀ k ∈ ks, k ≤ path.nDirs) (s : SFTP (ω × List WString)) :
    ∃ b w err, createDirectories os.recording path ks s = .ok b (s.inWorld w err) ∧
      Makes T path ks s.world b w err := by
  induction ks generalizing s with
  | nil =>
    refine ⟨true, s.world, s.lastError, rfl, ⟨[], .slnil, .none rfl rfl⟩, ?_⟩
    exact fun k hk => by cases hk
  | cons k ks ih =>
    have hrest := ih fun j hj => hks j (mem_cons_of_mem k hj)
    obtain ⟨q, hq, hname⟩ := nFirstDirs_systemName (hks k mem_cons_self)
    have hcall (s' : SFTP (ω × List WString)) :
        forCall q s' = .ok (path.firstDirs k).systemName s' := by
      rw [forCall_ok, hname]
    obtain ⟨hlook, hfound⟩ := getFileAttributesEx_made T path.toPath k s.world
    rw [createDirectories, hq, liftPath, pure_bind, bind_of_ok (hcall s), bind_of_ok (call_ok _ s)]
    generalize os.recording.getFileAttributesEx (path.firstDirs k).systemName s.world = r
      at hlook hfound
    cases hvalue : r.1.value with
    | some info =>
      -- it is there
      obtain ⟨b, w, err, hok, hmakes⟩ := hrest (s.after r)
      have hhas := hfound (by rw [hvalue]; exact Option.some_ne_none info)
      exact ⟨b, w, err, hok, .cons (nil_sublist _) hlook hhas hmakes⟩
    | none =>
      have hmake := createDirectory_made T path.toPath k r.2
      simp only at hmake ⊢
      rw [bind_of_ok (hcall _), bind_of_ok (call_ok _ _), show (s.after r).world = r.2 from rfl]
      generalize os.recording.createDirectory (path.firstDirs k).systemName r.2 = r' at hmake
      cases hvalue' : r'.1.value with
      | false =>
        rw [hvalue', if_neg (by decide)] at hmake
        exact ⟨false, r'.2, r'.1.lastError, rfl, .fails (hlook.trans hmake.1) hmake.2⟩
      | true =>
        rw [hvalue', if_pos rfl] at hmake
        obtain ⟨b, w, err, hok, hmakes⟩ := hrest ((s.after r).after r')
        exact ⟨b, w, err, hok, .cons (.refl _) (hlook.trans hmake.1) hmake.2 hmakes⟩

end Loop

/-! ## §4 The request -/

/-- What a request may do: directories are made on the way from the home to the target only, from
the home downwards; what was there stays as it was; and SSH2_FX_OK means that the whole way is
there. -/
structure MkdirFrame (T : FolderTree os ι) (home path : Path) (w : ω × List WString)
    (status : UInt32) (w' : ω × List WString) : Prop where
  made : ∃ ks : List Nat, ks.Pairwise (· < ·) ∧ (∀ k ∈ ks, home.nDirs < k ∧ k ≤ path.nDirs) ∧
    Made T path ks w w'
  kept : ∀ place, T.entry w.1 place ≠ none → T.entry w'.1 place = T.entry w.1 place
  all : status = Fx.ok → ∀ k ≤ path.nDirs, T.Has w'.1 (path.firstDirs k)

section Request

variable {T : FolderTree os ι} {home path : SFTPFilePath} {w w1 w' : ω × List WString}

theorem MkdirFrame.of_made (hpath : OnDrive path.toPath) {ks : List Nat} {status : UInt32}
    (hks : ks.Pairwise (· < ·)) (hrange : ∀ k ∈ ks, home.nDirs < k ∧ k ≤ path.nDirs)
    (hmade : Made T path.toPath ks w w') (hok : status = Fx.ok → T.Has w'.1 path.toPath) :
    MkdirFrame T home.toPath path.toPath w status w' where
  made := ⟨ks, hks, hrange, hmade⟩
  kept _ hplace := hmade.kept hplace
  all hstatus k _ := T.has_firstDirs hpath (hok hstatus) k

/-- The target is the home itself, or is longer. -/
theorem longer_of_not_has (hhome : T.Has w.1 (path.firstDirs home.nDirs))
    (hnot : ¬T.Has w.1 path.toPath) : home.nDirs < path.nDirs := by
  by_contra hle
  have hself : path.firstDirs home.nDirs = path.toPath := by
    rw [firstDirs, take_of_length_le (not_lt.mp hle)]
  rw [hself] at hhome
  exact hnot hhome

/-- The directories that `create_directory_path` goes through -/
def onTheWay (home path : Path) : List Nat :=
  List.range' (home.nDirs + 1) (path.nDirs - home.nDirs)

theorem mem_onTheWay {home path : Path} {k : Nat} :
    k ∈ onTheWay home path ↔ home.nDirs < k ∧ k ≤ path.nDirs := by
  rw [onTheWay, mem_range'_1]
  omega

/-- The loop, when the target could not be made -/
theorem frame_of_makes (hpath : OnDrive path.toPath) (hhome : T.Has w.1 (path.firstDirs home.nDirs))
    (hfirst : Made T path.toPath [] w w1) {b : Bool} {err : UInt32}
    (hmakes : Makes T path (onTheWay home.toPath path.toPath) w1 b w' err) :
    MkdirFrame T home.toPath path.toPath w (if b then Fx.ok else errnoToPortable err) w' := by
  obtain ⟨⟨js, hjs, hmade⟩, hall⟩ := hmakes
  refine .of_made hpath (List.Pairwise.sublist hjs pairwise_lt_range')
    (fun k hk => mem_onTheWay.mp (hjs.subset hk)) (hfirst.trans hmade) ?_
  cases b with
  | false => exact fun hok => absurd ((errnoToPortable_eq_ok err).mp hok) hall
  | true =>
    intro _
    by_contra hnot
    have hlonger := longer_of_not_has ((hfirst.trans hmade).has hhome) hnot
    have hhas := hall path.nDirs (mem_onTheWay.mpr ⟨hlonger, le_rfl⟩)
    rw [firstDirs_self] at hhas
    exact hnot hhas

/-- The loop, when the target has been made although the last error is ERROR_PATH_NOT_FOUND: it
finds everything. -/
theorem frame_of_made (hpath : OnDrive path.toPath) (hhome : T.Has w.1 (path.firstDirs home.nDirs))
    (hfirst : Made T path.toPath [path.nDirs] w w1) (hhas : T.Has w1.1 path.toPath)
    {js : List Nat} (hmade : Made T path.toPath js w1 w') (status : UInt32) :
    MkdirFrame T home.toPath path.toPath w status w' := by
  have hnone : js = [] := by
    apply eq_nil_iff_forall_not_mem.mpr
    intro j hj
    exact hmade.fresh j hj (T.has_firstDirs hpath hhas j)
  have hnew := hfirst.fresh path.nDirs (mem_singleton_self _)
  rw [firstDirs_self] at hnew
  have hlonger := longer_of_not_has hhome hnew
  rw [hnone] at hmade
  have hall : Made T path.toPath [path.nDirs] w w' := hfirst.trans hmade
  refine .of_made hpath (pairwise_singleton _ _) (fun k hk => ?_) hall fun _ => hmade.has hhas
  rw [mem_singleton.mp hk]
  exact ⟨hlonger, le_rfl⟩

variable {id : UInt32}

theorem getLastError_ok (s : SFTP ω) : getLastError s = .ok s.lastError s := rfl

theorem statusOf_ok (b : Bool) (s : SFTP ω) :
    statusOf b s = .ok (if b then Fx.ok else errnoToPortable s.lastError) s := by
  cases b <;> rfl

/-- `process_mkdir` when it has read the request -/
theorem mkdirCalls_frame (s : SFTP (ω × List WString)) (hpath : OnDrive path.toPath)
    (hpos : path.nUserHomePos = home.nDirs) (hhome : T.Has s.world.1 (path.firstDirs home.nDirs)) :
    AnswersStatus (do
        let res ← call (os.recording.createDirectory path.systemName)
        let err ← getLastError
        if err = WinError.pathNotFound then do
          let res ← createDirectoryPath os.recording path
          let status ← statusOf res
          sendStatus id status
        else
          sendStatus id (if res then Fx.ok else errnoToPortable err))
      id (MkdirFrame T home.toPath path.toPath s.world)
      (fun w => ∃ status, MkdirFrame T home.toPath path.toPath s.world status w) s := by
  have hfirst := createDirectory_made T path.toPath path.nDirs s.world
  rw [firstDirs_self] at hfirst
  simp only at hfirst
  rw [answersStatus_bind (call_ok _ s) rfl rfl, answersStatus_bind (getLastError_ok _) rfl rfl]
  generalize os.recording.createDirectory path.systemName s.world = r at hfirst
  rw [show (s.after r).lastError = r.1.lastError from rfl]
  by_cases herr : r.1.lastError = WinError.pathNotFound
  · have hrange : ∀ k ∈ onTheWay home.toPath path.toPath, k ≤ path.nDirs := fun k hk =>
      (mem_onTheWay.mp hk).2
    obtain ⟨b, w, err, hok, hmakes⟩ := createDirectories_makes T path _ hrange (s.after r)
    have hloop : createDirectoryPath os.recording path (s.after r) =
        .ok b ((s.after r).inWorld w err) := by
      rw [createDirectoryPath, hpos]
      exact hok
    rw [if_pos herr, answersStatus_bind hloop rfl rfl, answersStatus_bind (statusOf_ok b _) rfl rfl]
    refine answersStatus_concludes ?_
    cases hvalue : r.1.value with
    | true =>
      rw [hvalue, if_pos rfl] at hfirst
      obtain ⟨⟨js, -, hmade⟩, -⟩ := hmakes
      exact frame_of_made hpath hhome hfirst.1 hfirst.2 hmade _
    | false =>
      rw [hvalue, if_neg (by decide)] at hfirst
      exact frame_of_makes hpath hhome hfirst.1 hmakes
  · rw [if_neg herr]
    refine answersStatus_concludes ?_
    cases hvalue : r.1.value with
    | true =>
      rw [hvalue, if_pos rfl] at hfirst
      exact frame_of_made hpath hhome hfirst.1 hfirst.2 (.none rfl rfl) _
    | false =>
      rw [hvalue, if_neg (by decide)] at hfirst
      refine .of_made hpath .nil (fun k hk => by cases hk) hfirst.1 fun hstatus => ?_
      exact absurd ((errnoToPortable_eq_ok _).mp hstatus) hfirst.2

/-- SSH2_FXP_MKDIR for any path below the home, when the home is there -/
theorem mkdir_frame (T : FolderTree os ι) {letter : WChar} {text : WString} {name body rest : Bytes}
    {a : Attrib} (hletter : isAsciiLetter letter = true)
    (hhome : sftpFilePathFactory true (letter :: L ':' :: L '\\' :: text) = .ok home)
    (s : SFTP (ω × List WString)) (hexists : T.Has s.world.1 home.toPath)
    (hname : name.length ≤ 256 * 1024)
    (ha : decodeAttrib body = .ok a rest)
    (hpath : createPath true home (fromUTF8 os name) = .ok path) :
    AnswersStatus (processMkdir os.recording home) id
      (MkdirFrame T home.toPath path.toPath s.world)
      (fun w => ∃ status, MkdirFrame T home.toPath path.toPath s.world status w)
      (s.withIqueue (putU32 id ++ (putString name ++ body))) := by
  obtain ⟨hdrive, hdirs⟩ := sftpFilePathFactory_ok
    (fun _ => True) hletter (fun _ _ => trivial) hhome
  have hbelow := createPath_ok (fun c hc => (hdirs c hc).1) hpath
  have hon : OnDrive home.toPath := by
    refine ⟨home.notRelative, ?_, fun c hc => (hdirs c hc).1.1⟩
    rw [hdrive]
    exact (tolower_letter hletter).1
  have hon' : OnDrive path.toPath := by
    refine ⟨hbelow.absolute, ?_, fun c hc => (hbelow.plain c hc).1⟩
    rw [hbelow.drive]
    exact hon.letter
  have hpath' : createPath true home (fromUTF8 os.recording name) = .ok path := hpath
  rw [processMkdir, answersStatus_bind getInt_ok rfl rfl,
    answersStatus_bind (getString_ok hname) rfl rfl, answersStatus_bind (getAttrib_ok ha) rfl rfl,
    answersStatus_bind (makePath_ok hpath') rfl rfl, answersStatus_bind forCall_ok rfl rfl]
  exact mkdirCalls_frame (s.withIqueue rest) hon' (createPath_pos hpath)
    (T.has_home hon hon' hbelow hexists)

end Request

/-! ### A tree to look at -/

/-- Directories by place, each in one that is there too -/
structure Tree where
  has : List WString → Bool
  closed (place : List WString) (part : WString) : has (place ++ [part]) = true → has place = true

/-- A new directory in one that is there -/
def Tree.make (t : Tree) (place : List WString) (part : WString) (h : t.has place = true) :
    Tree where
  has := Function.update t.has (place ++ [part]) true
  closed place' part' h' := by
    have hself : place' ≠ place' ++ [part'] := fun heq => by simpa using congrArg List.length heq
    by_cases heq : place' ++ [part'] = place ++ [part]
    · obtain ⟨rfl, -⟩ := append_inj' heq rfl
      rw [← heq, Function.update_of_ne hself]
      exact h
    · rw [Function.update_of_ne heq] at h'
      by_cases heq' : place' = place ++ [part]
      · rw [heq', Function.update_self]
      · rw [Function.update_of_ne heq']
        exact t.closed place' part' h'

def Tree.entry (t : Tree) (place : List WString) : Option Unit :=
  bif t.has place then some () else none

theorem Tree.entry_ne_none {t : Tree} :
    t.entry place ≠ none ↔ t.has place = true := by
  rw [Tree.entry]
  cases t.has place <;> simp

theorem Tree.make_entry (t : Tree) (place : List WString) (part : WString)
    (h : t.has place = true) :
    (t.make place part h).entry = update t.entry (place ++ [part]) (some ()) := by
  funext place'
  simp only [Tree.entry, Tree.make]
  by_cases hplace : place' = place ++ [part]
  · rw [hplace, update_self, update_self, cond_true]
  · rw [update_of_ne hplace, update_of_ne hplace, Tree.entry]

theorem map_tolower_eq {a b : WString}
    (h : List.Forall₂ (fun x y => charEqualIgnoreCase x y = true) a b) :
    a.map tolower = b.map tolower := by
  induction h with
  | nil => rfl
  | cons hc _ ih => rw [map_cons, map_cons, beq_iff_eq.mp hc, ih]

def placeInTree (name : WString) : List WString := (nameParts name).map (List.map tolower)

/-- A system with directories only -/
def shelves : Win32 (Unit × Tree) :=
  { (brokenSystem 5).beside Tree with
    getFileAttributesEx := fun name w =>
      (if w.2.has (placeInTree name) then ⟨some {}, 0⟩ else ⟨none, 2⟩, w)
    createDirectory := fun name w =>
      if h : w.2.has (placeInTree name).dropLast = true then
        if hne : placeInTree name ≠ [] ∧ w.2.has (placeInTree name) = false then
          (⟨true, 0⟩, (w.1, w.2.make _ ((placeInTree name).getLast hne.1) h))
        else (⟨false, 183⟩, w)
      else (⟨false, WinError.pathNotFound⟩, w) }

def shelvesTree : FolderTree shelves Unit where
  fold := List.map tolower
  fold_eq a b h := by
    rw [isEqualIgnoreCase, Bool.and_eq_true, beq_iff_eq] at h
    exact map_tolower_eq (rangeEqual_forall₂ a b h.1 h.2)
  entry w := w.2.entry
  parent w place part h := by
    rw [Tree.entry_ne_none] at h ⊢
    exact w.2.closed place part h
  getFileAttributesEx_entry _ _ := rfl
  getFileAttributesEx_value name w h := by
    simp only [shelves] at h
    split at h
    · exact Tree.entry_ne_none.mpr ‹_›
    · exact absurd rfl h
  createDirectory_entry name w := by
    simp only [shelves]
    split
    · rename_i h
      split
      · rename_i hne
        have hmade := w.2.make_entry _ ((placeInTree name).getLast hne.1) h
        rw [dropLast_append_getLast] at hmade
        refine ⟨?_, (), hmade⟩
        show w.2.entry (placeInTree name) = none
        rw [Tree.entry, hne.2, cond_false]
      · rfl
    · rfl
  createDirectory_error name w := by
    simp only [shelves]
    split
    · split <;> simp
    · exact fun _ => show WinError.pathNotFound ≠ 0 by decide

/-- `C:\home` is there, and what it is in. -/
def onlyHome : SFTP ((Unit × Tree) × List WString) where
  version := 3
  world := (((), {
    has := fun place => place.isPrefixOf (placeInTree someHome.systemName)
    closed := fun place part h => by
      rw [List.isPrefixOf_iff_prefix] at h ⊢
      exact (prefix_append place [part]).trans h }), [])

/-- `a\b` is made, and `a` before it. -/
theorem mkdir_frame_two : ∃ home path : SFTPFilePath,
    sftpFilePathFactory true (wstr ['C', ':', '\\', 'h', 'o', 'm', 'e']) = .ok home ∧
    createPath true home (fromUTF8 shelves (ascii "a/b")) = .ok path ∧
    AnswersStatus (processMkdir shelves.recording home) 7
      (MkdirFrame shelvesTree home.toPath path.toPath onlyHome.world)
      (fun w => ∃ status, MkdirFrame shelvesTree home.toPath path.toPath onlyHome.world status w)
      (onlyHome.withIqueue (putU32 7 ++ (putString (ascii "a/b") ++ encodeAttrib {}))) := by
  have hdecode : decodeAttrib (encodeAttrib {}) = .ok {} [] := rfl
  have hhome : sftpFilePathFactory true (wstr ['C', ':', '\\', 'h', 'o', 'm', 'e']) =
      .ok someHome := rfl
  have hexists : shelvesTree.Has onlyHome.world.1 someHome.toPath := by
    show onlyHome.world.1.2.entry (placeInTree someHome.systemName) ≠ none
    exact Tree.entry_ne_none.mpr (by decide +kernel)
  exact ⟨someHome, _, hhome, rfl,
    mkdir_frame shelvesTree (by decide) hhome onlyHome hexists (by decide) hdecode rfl⟩

end Shiesh.Sftp
