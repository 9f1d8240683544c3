import Shiesh.Sftp.HandleStrings
import Shiesh.Sftp.OneReply

/-!
# Listing a Directory

A client lists a directory with SSH2_FXP_READDIR requests until the reply is SSH2_FX_EOF. The
entries come from `FindFirstFile`, which gives the first one together with the search handle, and
from `FindNextFileW`, which gives the others. `process_readdir` keeps the search handle from one
request to the next, and it drops the entry that came with it.
-/

namespace Shiesh.Sftp

open Shiesh.Lib Shiesh.Channels List Request Nat

variable {ω α : Type}

/-! ## §1 Entries and replies -/

/-- `FindNextFileW` yields these entries one after the other, and then no more. -/
def Yields (os : Win32 ω) (search : WinHandle) : ω → List FindData → Prop
  | w, [] => (os.findNextFile search w).1.value = none
  | w, e :: es => (os.findNextFile search w).1.value = some e ∧
      Yields os search (os.findNextFile search w).2 es

/-- The enumeration of a directory. `first` is what `FindFirstFile` writes to its second argument;
it fails when there is nothing. -/
def Enumerates (os : Win32 ω) (first : WString → ω → FindData) (mask : WString) (w : ω) :
    List FindData → Prop
  | [] => (os.findFirstFile mask w).1.value = invalidHandleValue
  | e :: es => (os.findFirstFile mask w).1.value ≠ invalidHandleValue ∧ first mask w = e ∧
      Yields os (os.findFirstFile mask w).1.value (os.findFirstFile mask w).2 es

/-- SSH2_FXP_NAME -/
def nameReply (id : UInt32) (stats : List Stat) : Bytes :=
  ([[Fxp.name], putU32 id, putU32 (UInt32.ofNat stats.length)] ++ stats.flatMap Stat.parts).flatten

/-- SSH2_FXP_STATUS -/
def statusReply (version : Int32) (id status : UInt32) : Bytes :=
  ([[Fxp.status], putU32 id, putU32 status] ++
    (if version ≥ 3 then cstringParts (statusToMessage status) ++ cstringParts [] else [])).flatten

/-- The replies that carry these batches of entries and then say that there are no more -/
def answers (version : Int32) : List UInt32 → List (List Stat) → List Bytes
  | [], _ => []
  | id :: _, [] => [statusReply version id Fx.eof]
  | id :: ids, batch :: batches => nameReply id batch :: answers version ids batches

/-- A request with this id is in `iqueue`, and what was sent before has been taken. -/
def SFTP.askedReaddir (s : SFTP ω) (handle : Bytes) (id : UInt32) : SFTP ω :=
  { s with iqueue := putString ((Request.readdir handle).message id []), toChannel := {} }

/-- The replies to successive requests with these ids, as they are in the queue -/
def readdirReplies (os : Win32 ω) (home : SFTPFilePath) (handle : Bytes) :
    List UInt32 → SFTP ω → List Bytes
  | [], _ => []
  | id :: ids, s =>
    match process os home (s.askedReaddir handle id) with
    | .ok _ s' => s'.toChannel.writeBuf.contents :: readdirReplies os home handle ids s'
    | .error _ _ => []

/-! ## §2 The parts of process_readdir -/

/-- Where a search stands: the entry of the directory's handle, the queue and the world -/
structure SearchAt (i : Nat) (path : SFTPFilePath) (version : Int32) (q : BusyThreadReadBuffer)
    (search : WinHandle) (done : Bool) (w : ω) (s : SFTP ω) : Prop where
  entry : ∃ h, s.handles[i]? = some h ∧ h.use = .dir ∧ h.dirp ≠ invalidHandleValue ∧
    h.path = path ∧ h.searchHandle = search ∧ h.searchDone = done
  world : s.world = w
  version : s.version = version
  queue : s.toChannel = q

section Parts

variable {os : Win32 ω} {i : Nat} {path : SFTPFilePath} {version : Int32}
  {q : BusyThreadReadBuffer} {search : WinHandle} {done : Bool} {w : ω} {s : SFTP ω}

variable (hs : SearchAt i path version q search done w s)
include hs

theorem call_searchAt {f : Api ω α} :
    wp (call f) (fun a s' => a = (f w).1.value ∧ SearchAt i path version q search done (f w).2 s')
      never s := by
  rw [wp_call, hs.world]
  exact ⟨rfl, hs.entry, rfl, hs.version, hs.queue⟩

variable {search' : WinHandle} {Q : SFTP ω → Prop} {name : WString}

theorem modifyHandle_searchAt {f : FileHandle → FileHandle} {done' : Bool}
   
    (hf : ∀ h, h.searchHandle = search → h.searchDone = done → (f h).use = h.use ∧
      (f h).dirp = h.dirp ∧ (f h).path = h.path ∧ (f h).searchHandle = search' ∧
      (f h).searchDone = done') :
    wp (modifyHandle (i : Int) f) (fun _ s' => SearchAt i path version q search' done' w s')
      never s := by
  rw [modifyHandle, wp_modify]
  obtain ⟨h, hget, huse, hdirp, hpath, hsearch, hdone⟩ := hs.entry
  obtain ⟨huse', hdirp', hpath', hsearch', hdone'⟩ := hf h hsearch hdone
  refine { hs with entry := ⟨f h, ?_, huse'.trans huse, hdirp' ▸ hdirp, hpath'.trans hpath,
    hsearch', hdone'⟩ }
  show (s.handles.modify i f)[i]? = some (f h)
  rw [getElem?_modify_eq, hget]
  rfl

omit hs in
/-- The loop takes `n` entries, or all of them when there are fewer. -/
theorem findFiles_yields (n : Nat) {rest : List FindData} (hrest : Yields os search w rest)
    (hs : SearchAt i path version q search' done w s) :
    wp (findFiles os search n)
      (fun found s' => found = ((rest.take n).map (statOf os), decide (rest.length < n)) ∧
        ∃ w', SearchAt i path version q search' done w' s' ∧
          (n ≤ rest.length → Yields os search w' (rest.drop n)))
      never s := by
  induction n generalizing rest w s with
  | zero =>
    rw [findFiles, wp_pure]
    exact ⟨rfl, w, hs, fun _ => hrest⟩
  | succ n ih =>
    rw [findFiles]
    refine wp_seq_total (call_searchAt hs) fun a s1 h1 => ?_
    obtain ⟨ha, hs1⟩ := h1
    cases rest with
    | nil =>
      rw [show a = none from ha.trans hrest]
      rw [wp_pure]
      exact ⟨rfl, _, hs1, fun hle => absurd hle (not_succ_le_zero n)⟩
    | cons e es =>
      rw [show a = some e from ha.trans hrest.1]
      refine wp_seq_total (ih hrest.2 hs1) fun found s2 h2 => ?_
      obtain ⟨rfl, w', hs2, hnext⟩ := h2
      rw [wp_pure]
      refine ⟨?_, w', hs2, fun hle => hnext (le_of_succ_le_succ hle)⟩
      simp

/-- What a search has still to give. It has not begun, it is going on, or it is done. -/
inductive Remaining (os : Win32 ω) (first : WString → ω → FindData) (mask : WString) :
    WinHandle → Bool → ω → List FindData → Prop where
  | fresh {w : ω} {es : List FindData} (h : Enumerates os first mask w es) :
      Remaining os first mask invalidHandleValue false w es.tail
  | running {search : WinHandle} {w : ω} {rest : List FindData}
      (hvalid : search ≠ invalidHandleValue)
      (h : Yields os search w rest) : Remaining os first mask search false w rest
  | finished {search : WinHandle} {w : ω} : Remaining os first mask search true w []

/-- What it is once `FindFirstFile` has been called -/
inductive Begun (os : Win32 ω) : WinHandle → Bool → ω → List FindData → Prop where
  | nothing {w : ω} : Begun os invalidHandleValue false w []
  | running {search : WinHandle} {w : ω} {rest : List FindData}
      (hvalid : search ≠ invalidHandleValue)
      (h : Yields os search w rest) : Begun os search false w rest
  | finished {search : WinHandle} {w : ω} : Begun os search true w []

variable {first : WString → ω → FindData} {mask : WString} {rest : List FindData}

omit hs in
theorem startSearch_begins (hmask : path.getMaskForDirSearch true = .ok mask)
    (hrest : Remaining os first mask search done w rest)
    (hs : SearchAt i path version q search done w s) :
    wp (startSearch os i path search done)
      (fun search' s' => ∃ w', Begun os search' done w' rest ∧
        SearchAt i path version q search' done w' s')
      never s := by
  cases hrest with
  | fresh h =>
    rename_i es
    rw [startSearch, if_pos (by simp), hmask, wp_bind, liftPath, wp_pure]
    refine wp_seq_total (call_searchAt hs) fun value s1 h1 => ?_
    obtain ⟨rfl, hs1⟩ := h1
    refine wp_seq_total (modifyHandle_searchAt hs1 fun _ _ hdone =>
      ⟨rfl, rfl, rfl, rfl, hdone⟩) fun _ s2 hs2 => ?_
    rw [wp_pure]
    refine ⟨_, ?_, hs2⟩
    cases es with
    | nil =>
      rw [show (os.findFirstFile mask w).1.value = invalidHandleValue from h]
      exact .nothing
    | cons e es => exact .running h.1 h.2.2
  | running hvalid h =>
    rw [startSearch, if_neg (by simp [hvalid]), wp_pure]
    exact ⟨w, .running hvalid h, hs⟩
  | finished =>
    rw [startSearch, if_neg (by simp), wp_pure]
    exact ⟨w, .finished, hs⟩

/-- A search that is not done goes on. -/
theorem endSearch_closes :
    wp (endSearch os i search done)
      (fun _ s' => ∃ search' w', SearchAt i path version q search' done w' s' ∧
        (done = false → search' = search ∧ w' = w))
      never s := by
  rw [endSearch, wp_ite, wp_pure]
  refine ⟨fun hclose => ?_, fun _ => ⟨search, w, hs, fun _ => ⟨rfl, rfl⟩⟩⟩
  refine wp_seq_total (call_searchAt hs) fun _ s1 h1 => ?_
  refine wp_mono_total (modifyHandle_searchAt h1.2 fun _ _ hdone =>
    ⟨rfl, rfl, rfl, rfl, hdone⟩) fun _ s2 hs2 => ?_
  refine ⟨0, _, hs2, fun hgoes => ?_⟩
  rw [hgoes] at hclose
  cases hclose

variable (first mask) in
omit hs in
/-- The entries of one reply are taken, and the search is closed behind the last of them. -/
theorem continueSearch_takes (hbegun : Begun os search done w rest)
    (hs : SearchAt i path version q search done w s) :
    wp (continueSearch os i search done >>= fun found =>
        endSearch os i search found.2 >>= fun _ => pure found.1)
      (fun stats s' => stats = (rest.take 100).map (statOf os) ∧
        ∃ search' done' w', SearchAt i path version q search' done' w' s' ∧
          (rest ≠ [] → Remaining os first mask search' done' w' (rest.drop 100)))
      never s := by
  rw [wp_bind]
  cases hbegun with
  | nothing | finished =>
    rw [continueSearch, if_neg (by simp), wp_pure]
    refine wp_seq_total (endSearch_closes hs) fun _ s1 h1 => ?_
    obtain ⟨search', w', hs1, -⟩ := h1
    rw [wp_pure]
    exact ⟨rfl, _, _, w', hs1, fun hne => absurd rfl hne⟩
  | running hvalid h =>
    rw [continueSearch, if_pos (by simp [hvalid])]
    refine wp_seq_total (findFiles_yields 100 h hs) fun found s1 h1 => ?_
    obtain ⟨rfl, w1, hs1, hnext⟩ := h1
    refine wp_seq_total (modifyHandle_searchAt hs1 fun _ hsearch _ =>
      ⟨rfl, rfl, rfl, hsearch, rfl⟩) fun _ s2 hs2 => ?_
    rw [wp_pure]
    refine wp_seq_total (endSearch_closes hs2) fun _ s3 h3 => ?_
    obtain ⟨search', w', hs3, hgoes⟩ := h3
    rw [wp_pure]
    refine ⟨rfl, _, _, w', hs3, fun _ => ?_⟩
    by_cases hlast : rest.length < 100
    · simp only [hlast, decide_true]
      rw [drop_of_length_le (le_of_lt hlast)]
      exact .finished
    · have hmore := decide_eq_false hlast
      obtain ⟨rfl, rfl⟩ := hgoes hmore
      simp only [hmore]
      exact .running hvalid (hnext (Nat.le_of_not_lt hlast))

/-! ## §3 One request -/

/-- The reply is the only message in the queue. -/
def Replied (reply : Bytes) (s : SFTP ω) : Prop := s.toChannel.writeBuf.contents = putString reply

omit hs in
theorem sendMsg_replied {parts : List Bytes} (hlen : parts.flatten.length ≤ bufferMaxChunk)
    (hs : SearchAt i path version {} search done w s) :
    wp (sendMsg parts) (fun _ s' => Replied parts.flatten s' ∧
      ∃ q, SearchAt i path version q search done w s') never s := by
  refine wp_sendMsg (fun part hpart => le_trans (part_length_le hpart) hlen)
    (le_trans hlen (by decide)) ?_
  rw [hs.queue]
  refine wp_mono_total (Buffer.putString_fits (by decide) hlen) fun _ b hb => ?_
  rw [Buffer.contents_init, nil_append] at hb
  exact ⟨hb, _, hs.entry, hs.world, hs.version, rfl⟩

omit hs in
theorem sendStatus_replied (id status : UInt32) (hs : SearchAt i path version {} search done w s) :
    wp (sendStatus id status) (fun _ s' => Replied (statusReply version id status) s')
      never s := by
  have hlen := status_length_le version id status
  rw [sendStatus, wp_read, hs.version]
  refine wp_mono_total (sendMsg_replied (le_trans hlen (by decide)) hs) fun _ s' h => ?_
  exact h.1

/-- What one request does: it is answered with the next entries, if there are any. -/
def Answers (os : Win32 ω) (first : WString → ω → FindData) (mask : WString) (i : Nat)
    (path : SFTPFilePath) (version : Int32) (id : UInt32) (rest : List FindData) (s : SFTP ω) :
    Prop :=
  if rest = [] then Replied (statusReply version id Fx.eof) s
  else Replied (nameReply id ((rest.take 100).map (statOf os))) s ∧
    ∃ q search done w, SearchAt i path version q search done w s ∧
      Remaining os first mask search done w (rest.drop 100)

variable (os) in
omit hs in
theorem batch_length_le (rest : List FindData) :
    (((rest.take 100).map (statOf os)).flatMap Stat.parts).flatten.length ≤ 2100 * 100 := by
  have hsum : ∀ es : List FindData,
      ((es.map (statOf os)).flatMap Stat.parts).flatten.length ≤ 2100 * es.length := by
    intro es
    induction es with
    | nil => exact le_refl 0
    | cons e es ih =>
      have he := statOf_length_le os e
      rw [map_cons, flatMap_cons, flatten_append, length_append,
        length_cons]
      omega
  have htake : (rest.take 100).length ≤ 100 := length_take_le _ _
  have hbatch := hsum (rest.take 100)
  omega

omit hs in
theorem readEntries_answers (id : UInt32) (hmask : path.getMaskForDirSearch true = .ok mask)
    (hrest : Remaining os first mask search done w rest)
    (hs : SearchAt i path version {} search done w s) :
    wp (readEntries os id i path search done)
      (fun _ s' => Answers os first mask i path version id rest s') never s := by
  have hparts : readEntries os id i path search done =
      startSearch os i path search done >>= fun search1 =>
        (continueSearch os i search1 done >>= fun found =>
          endSearch os i search1 found.2 >>= fun _ => pure found.1) >>= fun stats =>
        if stats ≠ [] then sendNames id stats
        else (modifyHandle i fun h =>
            { h with searchHandle := invalidHandleValue, searchDone := false }) >>= fun _ =>
          sendStatus id Fx.eof := by
    simp only [readEntries, bind_assoc, pure_bind]
  rw [hparts]
  refine wp_seq_total (startSearch_begins hmask hrest hs) fun search1 s1 h1 => ?_
  obtain ⟨w1, hbegun, hs1⟩ := h1
  refine wp_seq_total (continueSearch_takes first mask hbegun hs1) fun stats s2 h2 => ?_
  obtain ⟨rfl, search2, done2, w2, hs2, hnext⟩ := h2
  rw [wp_ite]
  refine ⟨fun hsome => ?_, fun hnone => ?_⟩
  · have hne : rest ≠ [] := fun hnil => hsome (by rw [hnil]; rfl)
    have hlen := names_length id ((rest.take 100).map (statOf os))
    have hbatch := batch_length_le os rest
    refine wp_mono_total (sendMsg_replied ?_ hs2) fun _ s3 h3 => ?_
    · rw [hlen]
      exact le_trans (Nat.add_le_add_left hbatch 9) (by decide)
    · obtain ⟨hreply, q3, hs3⟩ := h3
      rw [Answers, if_neg hne]
      exact ⟨hreply, q3, search2, done2, w2, hs3, hnext hne⟩
  · have hnil : rest = [] := by
      rw [not_not, map_eq_nil_iff, take_eq_nil_iff] at hnone
      exact hnone.resolve_left (by decide)
    refine wp_seq_total (modifyHandle_searchAt hs2 fun _ _ _ =>
      ⟨rfl, rfl, rfl, rfl, rfl⟩) fun _ s3 hs3 => ?_
    simp only [Answers, if_pos hnil]
    exact sendStatus_replied id Fx.eof hs3

omit hs in
/-- The string of a handle is read as its number. -/
theorem handleNumber_handleToString (os : Win32 ω) (s : SFTP ω) (hi : i < 2 ^ 31) :
    handleNumber os s (handleToString i) = i := by
  have hint : (Int32.ofNat i).toInt = i := Int32.toInt_ofNat_of_lt hi
  have hreads := handleToString_beginsWith (.ofNat i)
  rw [hint] at hreads
  rw [handleNumber, (extractInt_eq_some _ _).mpr hreads, Option.getD_some]

theorem SearchAt.handleIsOk :
    s.handleIsOk i .dir = true := by
  obtain ⟨h, hget, huse, -⟩ := hs.entry
  simp [SFTP.handleIsOk, hget, huse]

theorem SearchAt.refersTo (hi : i < 2 ^ 31)
    (os : Win32 ω) : refersTo os s (handleToString i) .dir = true := by
  have hlen := handleToString_length_le i
  rw [Sftp.refersTo, handleNumber_handleToString os s hi, hs.handleIsOk,
    decide_eq_true (handleToString_ne_nil i), decide_eq_true (lt_of_le_of_lt hlen (by decide))]
  rfl

theorem SearchAt.withIqueue (b : Bytes) :
    SearchAt i path version q search done w (s.withIqueue b) :=
  { hs with }

theorem handleToPath_searchAt
    {Q : SFTPFilePath → SFTP ω → Prop} {E : SftpError → SFTP ω → Prop} (hQ : Q path s) :
    wp (handleToPath i) Q E s := by
  obtain ⟨h, hget, -, -, hpath, -⟩ := hs.entry
  have hat : s.handleAt i = some h := hget
  rw [handleToPath, wp_read, hat]
  simp only
  rw [hs.handleIsOk, Bool.true_or, if_pos rfl, wp_pure, hpath]
  exact hQ

omit hs in
/-- The request is the one with this handle: what it does is up to the name of the directory. -/
theorem processReaddir_reads (id : UInt32) (hi : i < 2 ^ 31)
    (hname : path.toWString true = .ok name) (hs : SearchAt i path version {} search done w s)
    {b : Bytes}
    (hfails : name = [] → wp (sendStatus id Fx.failure) (fun _ => Q) never
      (s.withIqueue b))
    (hreads : name ≠ [] → wp (readEntries os id i path search done) (fun _ => Q) never
      (s.withIqueue b)) :
    wp (processReaddir os) (fun _ => Q) never
      (s.withIqueue (putU32 id ++ (putString (handleToString i) ++ b))) := by
  have hlen := handleToString_length_le i
  have hrefers := hs.refersTo hi os
  rw [processReaddir, wp_bind, wp_getInt, wp_bind]
  refine wp_mono (getHandle_spec (le_trans hlen (by decide))) (fun j s1 h1 => ?_) ?_
  · obtain ⟨rfl, hresolved⟩ := h1
    have hj : j = i := by
      rw [hresolved.number .dir hrefers, handleNumber_handleToString os s hi]
    subst hj
    have hs1 := hs.withIqueue b
    obtain ⟨h, hget, -, hdirp, -, hsearch, hdone⟩ := hs1.entry
    have hat : (s.withIqueue b).handleAt i = some h := hget
    rw [wp_bind, handleToName, wp_bind]
    refine handleToPath_searchAt hs1 ?_
    rw [hname, liftPath, wp_pure, wp_bind, handleToDir, handleTo, wp_read, hat]
    simp only
    rw [hs1.handleIsOk, if_pos rfl, wp_pure, wp_bind]
    refine handleToPath_searchAt hs1 ?_
    rw [hname, wp_bind, liftPath, wp_pure, wp_ite]
    refine ⟨fun hno => ?_, fun hyes => ?_⟩
    · exact hfails (eq_nil_of_length_eq_zero (hno.resolve_left hdirp))
    · rw [wp_read, hat]
      simp only
      rw [hsearch, hdone]
      exact hreads fun hnil => hyes (.inr (by rw [hnil]; rfl))
  · intro _ _ hnone
    rw [hnone .dir (by decide)] at hrefers
    cases hrefers

omit hs in
/-- The message is taken from the queue, and what the handler has left of it is discarded. -/
theorem process_reads (hQ : ∀ s', Q s' → Q { s' with iqueue := [] })
    (home : SFTPFilePath) (id : UInt32)
    (hreads : wp (processReaddir os) (fun _ => Q) never
      ((s.askedReaddir (handleToString i) id).withIqueue
        (putU32 id ++ (putString (handleToString i) ++ [])))) :
    wp (process os home) (fun _ => Q) never
      (s.askedReaddir (handleToString i) id) := by
  have hlen := handleToString_length_le i
  have hmsg : ((readdir (handleToString i)).message id []).length < UInt32.size := by
    simp only [Request.message, fields, length_append, length_singleton,
      putU32_length, putString_length, length_nil]
    exact lt_of_le_of_lt (show _ ≤ 41 by omega) (by decide)
  have hswitch : wp (processSwitch os home) (fun _ => Q) never
      (s.askedReaddir (handleToString i) id) := by
    show wp _ _ _ ((s.askedReaddir (handleToString i) id).withIqueue
      (putString ((readdir (handleToString i)).message id [])))
    rw [putString, processSwitch, wp_bind, wp_getInt, wp_bind, Request.message, wp_getType]
    refine wp_seq_total hreads fun _ s' hs' => ?_
    rw [wp_pure]
    exact hs'
  exact process_of_switch os home rfl hmsg hswitch hQ

theorem SearchAt.askedReaddir (handle : Bytes)
    (id : UInt32) : SearchAt i path version {} search done w (s.askedReaddir handle id) :=
  { hs with queue := rfl }

omit hs

/-- **One request**, from its message on -/
theorem process_answers (home : SFTPFilePath) (id : UInt32) (hi : i < 2 ^ 31)
    (hname : path.toWString true = .ok name) (hnamed : name ≠ [])
    (hmask : path.getMaskForDirSearch true = .ok mask)
    (hrest : Remaining os first mask search done w rest)
    (hs : SearchAt i path version q search done w s) :
    wp (process os home) (fun _ => Answers os first mask i path version id rest)
      never (s.askedReaddir (handleToString i) id) := by
  have hasked := hs.askedReaddir (handleToString i) id
  refine process_reads (fun s' hanswers => ?_) home id ?_
  · rw [Answers] at hanswers ⊢
    split at hanswers
    case isTrue hnil =>
      rw [if_pos hnil]
      exact hanswers
    case isFalse hne =>
      rw [if_neg hne]
      obtain ⟨hreply, q', search', done', w', hs', hnext⟩ := hanswers
      exact ⟨hreply, q', search', done', w', { hs' with }, hnext⟩
  · exact processReaddir_reads id hi hname hasked (fun hnil => absurd hnil hnamed)
      fun _ => readEntries_answers id hmask hrest (hasked.withIqueue [])

variable (os) in
/-- A directory whose name is empty cannot be listed. -/
theorem process_fails (home : SFTPFilePath) (id : UInt32) (hi : i < 2 ^ 31)
    (hname : path.toWString true = .ok []) (hs : SearchAt i path version q search done w s) :
    wp (process os home) (fun _ => Replied (statusReply version id Fx.failure))
      never (s.askedReaddir (handleToString i) id) := by
  have hasked := hs.askedReaddir (handleToString i) id
  refine process_reads (fun _ h => h) home id ?_
  exact processReaddir_reads id hi hname hasked
    (fun _ => sendStatus_replied id Fx.failure (hasked.withIqueue [])) fun hne => absurd rfl hne

/-! ## §4 Requests until the end -/

/-- What is left is sent in batches, and then the end is. -/
theorem readdirReplies_rest (home : SFTPFilePath) (hi : i < 2 ^ 31)
    (hname : path.toWString true = .ok name) (hnamed : name ≠ [])
    (hmask : path.getMaskForDirSearch true = .ok mask) (ids : List UInt32)
    (hrest : Remaining os first mask search done w rest)
    (hs : SearchAt i path version q search done w s) (hids : rest.length < ids.length) :
    ∃ batches : List (List FindData), batches.flatten = rest ∧ (∀ b ∈ batches, b.length ≤ 100) ∧
      batches.length < ids.length ∧
      (answers version ids (batches.map (List.map (statOf os)))).map putString <+:
        readdirReplies os home (handleToString i) ids s := by
  induction ids generalizing rest search done w s q with
  | nil => exact absurd hids (not_lt_zero _)
  | cons id ids ih =>
    obtain ⟨_, s1, hrun, hanswers⟩ :=
      ok_of_wp_total (process_answers home id hi hname hnamed hmask hrest hs)
    rw [readdirReplies, hrun]
    rw [Answers] at hanswers
    split at hanswers
    case isTrue hnil =>
      refine ⟨[], hnil.symm, fun b hb => absurd hb not_mem_nil, succ_pos _, ?_⟩
      exact cons_prefix_cons.mpr ⟨hanswers.symm, nil_prefix⟩
    case isFalse hne =>
      obtain ⟨hreply, q1, search1, done1, w1, hs1, hrest1⟩ := hanswers
      have hpos : 0 < rest.length := length_pos_iff.mpr hne
      obtain ⟨batches, hflat, hsizes, hmany, hsent⟩ := ih hrest1 hs1
        (by rw [length_drop]; rw [length_cons] at hids; omega)
      refine ⟨rest.take 100 :: batches, ?_, ?_, succ_lt_succ hmany, ?_⟩
      · rw [flatten_cons, hflat, take_append_drop]
      · intro b hb
        rcases mem_cons.mp hb with rfl | hb
        · exact length_take_le 100 rest
        · exact hsizes b hb
      · rw [map_cons, answers, map_cons]
        exact cons_prefix_cons.mpr ⟨hreply.symm, hsent⟩

end Parts

theorem putString_injective {a b : Bytes} (h : putString a = putString b) : a = b := by
  have hlen : (putU32 (UInt32.ofNat a.length)).length =
      (putU32 (UInt32.ofNat b.length)).length := by
    rw [putU32_length, putU32_length]
  exact (append_inj h hlen).2

theorem putU32_injective {a b : UInt32} (h : putU32 a = putU32 b) : a = b := by
  rw [← getU32_putU32 a, h, getU32_putU32]

theorem nameReply_eq (id : UInt32) (stats : List Stat) : nameReply id stats =
    [Fxp.name] ++ (putU32 id ++ (putU32 (UInt32.ofNat stats.length) ++
      (stats.flatMap Stat.parts).flatten)) := by
  simp [nameReply]

theorem statusReply_eq (version : Int32) (id status : UInt32) : ∃ b, statusReply version id status =
    [Fxp.status] ++ (putU32 id ++ (putU32 status ++ b)) := by
  rw [statusReply, flatten_append]
  exact ⟨_, rfl⟩

theorem nameReply_ne_statusReply (version : Int32) (id id' status : UInt32) (stats : List Stat) :
    nameReply id stats ≠ statusReply version id' status := by
  obtain ⟨b, hb⟩ := statusReply_eq version id' status
  rw [nameReply_eq, hb]
  intro h
  exact absurd (cons.inj h).1 (by decide)

variable {id : UInt32} {ids : List UInt32} {replies : List Bytes}

theorem statusReply_injective {version : Int32} {status status' : UInt32}
    (h : statusReply version id status = statusReply version id status') : status = status' := by
  obtain ⟨b, hb⟩ := statusReply_eq version id status
  obtain ⟨b', hb'⟩ := statusReply_eq version id status'
  rw [hb, hb'] at h
  have hrest := append_cancel_left (append_cancel_left h)
  exact putU32_injective (append_inj hrest (by rw [putU32_length, putU32_length])).1

/-- The number of entries can be read from a reply. -/
theorem nameReply_length {a b : List Stat} (ha : a.length ≤ 100)
    (hb : b.length ≤ 100) (h : nameReply id a = nameReply id b) : a.length = b.length := by
  rw [nameReply_eq, nameReply_eq] at h
  have hrest := append_cancel_left (append_cancel_left h)
  have hcount := putU32_injective (append_inj hrest (by rw [putU32_length, putU32_length])).1
  have hnat := congrArg UInt32.toNat hcount
  rwa [UInt32.toNat_ofNat_of_lt' (lt_of_le_of_lt ha (by decide)),
    UInt32.toNat_ofNat_of_lt' (lt_of_le_of_lt hb (by decide))] at hnat

/-- How many entries were sent before the end can be read from the replies. -/
theorem answers_length {version : Int32} {A B : List (List Stat)} (hA : ∀ a ∈ A, a.length ≤ 100)
    (hB : ∀ b ∈ B, b.length ≤ 100)
    (hAids : A.length < ids.length) (hBids : B.length < ids.length)
    (hsentA : (answers version ids A).map putString <+: replies)
    (hsentB : (answers version ids B).map putString <+: replies) :
    A.flatten.length = B.flatten.length := by
  induction ids generalizing A B replies with
  | nil => exact absurd hAids (not_lt_zero _)
  | cons id ids ih =>
    cases A with
    | nil =>
      cases B with
      | nil => rfl
      | cons b B =>
        obtain ⟨_, hr, -⟩ := cons_prefix_iff.mp hsentA
        rw [hr] at hsentB
        have hhead := putString_injective (cons_prefix_cons.mp hsentB).1
        exact absurd hhead (nameReply_ne_statusReply _ _ _ _ _)
    | cons a A =>
      obtain ⟨_, hr, hrestA⟩ := cons_prefix_iff.mp hsentA
      rw [hr] at hsentB
      cases B with
      | nil =>
        have hhead := putString_injective (cons_prefix_cons.mp hsentB).1
        exact absurd hhead.symm (nameReply_ne_statusReply _ _ _ _ _)
      | cons b B =>
        obtain ⟨hhead, hrestB⟩ := cons_prefix_cons.mp hsentB
        have hsize := nameReply_length (hB b mem_cons_self) (hA a mem_cons_self)
          (putString_injective hhead)
        have hrest := ih (fun x hx => hA x (mem_cons_of_mem a hx))
          (fun x hx => hB x (mem_cons_of_mem b hx)) (lt_of_succ_lt_succ hAids)
          (lt_of_succ_lt_succ hBids) hrestA hrestB
        rw [flatten_cons, flatten_cons, length_append, length_append, hrest,
          hsize]

/-- A directory that was opened and not yet read -/
structure FreshDir (s : SFTP ω) (handle : Int32) (path : SFTPFilePath) : Prop where
  nonneg : 0 ≤ handle.toInt
  entry : ∃ h, s.handleAt handle.toInt = some h ∧ h.use = .dir ∧ h.dirp ≠ invalidHandleValue ∧
    h.path = path ∧ h.searchHandle = invalidHandleValue ∧ h.searchDone = false

/-- The replies up to SSH2_FX_EOF list these entries, each once and in this order, with at most 100
in a reply. -/
def Listed (os : Win32 ω) (version : Int32) (ids : List UInt32) (es : List FindData)
    (replies : List Bytes) : Prop :=
  ∃ batches : List (List FindData), batches.flatten = es ∧ (∀ b ∈ batches, b.length ≤ 100) ∧
    batches.length < ids.length ∧
    (answers version ids (batches.map (List.map (statOf os)))).map putString <+: replies

theorem Listed.length_eq {os : Win32 ω} {version : Int32} {es es' : List FindData}
    (h : Listed os version ids es replies)
    (h' : Listed os version ids es' replies) : es.length = es'.length := by
  obtain ⟨A, rfl, hA, hAids, hsentA⟩ := h
  obtain ⟨B, rfl, hB, hBids, hsentB⟩ := h'
  have hsizes : ∀ C : List (List FindData), (∀ c ∈ C, c.length ≤ 100) →
      ∀ c ∈ C.map (map (statOf os)), c.length ≤ 100 := by
    intro C hC c hc
    obtain ⟨c', hc', rfl⟩ := mem_map.mp hc
    rw [length_map]
    exact hC c' hc'
  have hlen := answers_length (hsizes A hA) (hsizes B hB) (by rwa [length_map])
    (by rwa [length_map]) hsentA hsentB
  rwa [← map_flatten, ← map_flatten, length_map, length_map] at hlen

/-- **Listing a directory**: the replies list what the system enumerates exactly when there is
nothing to list. The entry that `FindFirstFile` gives is in no reply. -/
theorem readdir_lists (os : Win32 ω) (first : WString → ω → FindData) (home : SFTPFilePath)
    (s : SFTP ω) {handle : Int32} {path : SFTPFilePath} (hfresh : FreshDir s handle path)
    {mask : WString} (hmask : path.getMaskForDirSearch true = .ok mask) {es : List FindData}
    (hes : Enumerates os first mask s.world es) {ids : List UInt32}
    (hids : es.length < ids.length) :
    Listed os s.version ids es (readdirReplies os home (handleToString handle.toInt) ids s) ↔
      es = [] ∧ path.toWString true ≠ .ok [] := by
  obtain ⟨i, hi⟩ := Int.eq_ofNat_of_zero_le hfresh.nonneg
  have hlt : i < 2 ^ 31 := by
    have := Int32.toInt_lt handle
    omega
  rw [hi]
  have hs : SearchAt i path s.version s.toChannel invalidHandleValue false s.world s := by
    obtain ⟨h, hat, hentry⟩ := hfresh.entry
    rw [hi] at hat
    exact ⟨⟨h, hat, hentry⟩, rfl, rfl, rfl⟩
  obtain ⟨name, hname⟩ := toStringGeneric_ok path.toPath (L '\\')
  change path.toWString true = .ok name at hname
  by_cases hnamed : name = []
  · subst hnamed
    refine iff_of_false (fun hlisted => ?_) fun h => h.2 hname
    -- the first reply is SSH2_FX_FAILURE, which is no part of a listing
    obtain ⟨batches, -, -, -, hsent⟩ := hlisted
    cases ids with
    | nil => exact not_lt_zero _ hids
    | cons id ids =>
      obtain ⟨_, s1, hrun, hreply⟩ := ok_of_wp_total (process_fails os home id hlt hname hs)
      rw [readdirReplies, hrun] at hsent
      simp only at hsent
      rw [hreply] at hsent
      cases batches with
      | nil =>
        have hhead := putString_injective (cons_prefix_cons.mp hsent).1
        exact absurd (statusReply_injective hhead) (by decide)
      | cons b batches =>
        have hhead := putString_injective (cons_prefix_cons.mp hsent).1
        exact nameReply_ne_statusReply _ _ _ _ _ hhead
  · have htail : es.tail.length ≤ es.length := by
      rw [length_tail]
      exact sub_le _ _
    have hlisted : Listed os s.version ids es.tail
        (readdirReplies os home (handleToString i) ids s) :=
      readdirReplies_rest home hlt hname hnamed hmask ids (.fresh hes) hs
        (lt_of_le_of_lt htail hids)
    constructor
    · intro h
      have hlen := h.length_eq hlisted
      rw [length_tail] at hlen
      refine ⟨eq_nil_of_length_eq_zero (by omega), fun hempty => hnamed ?_⟩
      rw [hname] at hempty
      exact Except.ok.inj hempty
    · intro h
      rw [h.1] at hlisted ⊢
      exact hlisted

/-- The home is open as a directory, under the number 0. -/
def oneDir : SFTP Unit where
  version := 3
  handles := [{ use := .dir, dirp := 8, fileHandle := 0, path := someHome }]
  world := ()

/-- `C:\home\*` -/
def homeMask : WString := longPrefix ++ wstr ['c', ':', '\\', 'h', 'o', 'm', 'e', '\\', '*']

theorem oneDir_fresh : FreshDir oneDir 0 someHome :=
  ⟨by decide, _, rfl, rfl, by decide, rfl, rfl, rfl⟩

def readme : FindData where
  dwFileAttributes := 32
  ftCreationTime := 0
  ftLastAccessTime := 0
  ftLastWriteTime := 0
  cFileName := wstr ['r', 'e', 'a', 'd', 'm', 'e']
  short := by decide

theorem readdir_lists_nothing :
    FreshDir oneDir 0 someHome ∧
      Enumerates (brokenSystem 2) (fun _ _ => readme) homeMask () [] ∧
      Listed (brokenSystem 2) 3 [7] []
        (readdirReplies (brokenSystem 2) someHome (handleToString 0) [7] oneDir) := by
  have hmask : someHome.getMaskForDirSearch true = .ok homeMask := rfl
  have hes : Enumerates (brokenSystem 2) (fun _ _ => readme) homeMask () [] := rfl
  exact ⟨oneDir_fresh, hes, (readdir_lists (brokenSystem 2) (fun _ _ => readme) someHome oneDir
    oneDir_fresh hmask hes (by decide)).mpr ⟨rfl, by decide⟩⟩

/-- A directory with one file: `FindFirstFile` gives it and `FindNextFileW` has no more. -/
def oneEntry : Win32 Unit := { brokenSystem 18 with findFirstFile := fun _ w => (⟨12, 0⟩, w) }

/-- The file is in no reply: the first one says that there are no more. -/
theorem first_entry_lost :
    FreshDir oneDir 0 someHome ∧
      Enumerates oneEntry (fun _ _ => readme) homeMask () [readme] ∧
      readdirReplies oneEntry someHome (handleToString 0) [7, 8] oneDir =
        [putString (statusReply 3 7 Fx.eof), putString (statusReply 3 8 Fx.eof)] :=
  ⟨oneDir_fresh, ⟨by decide, rfl, rfl⟩, by decide +kernel⟩

end Shiesh.Sftp
