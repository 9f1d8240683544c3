import Shiesh.Sftp.Framing
import Shiesh.Sftp.Realpath

/-!
# A Reply That Cannot Be Taken

SSH2_FXP_NAME for `process_realpath` holds the path twice. For a path of about half of what
`buffer_get_string` takes the reply is put into the queue, since this is smaller than a chunk, and
`channel_post` fails when it is to be taken out of it. `process` has not thrown anything.
-/

namespace Shiesh.Sftp

open Shiesh.Lib Shiesh.Channels List SFTPChannel UInt32
open BusyThreadReadBuffer (Queues)

/-! ## §1 Taking -/

/-- `buffer_get_string` returns short strings only. -/
theorem getString_short (b : Buffer) :
    wp Buffer.getString (fun r _ => r.length ≤ 256 * 1024) any b := by
  rw [Buffer.getString, wp_bind]
  refine wp_intro (fun n b1 _ => ?_) fun _ _ _ => trivial
  rw [wp_ite, wp_throw]
  refine ⟨fun _ => trivial, fun hshort => ?_⟩
  refine wp_weaken (Buffer.getOr_spec _ _ b1) fun r b2 hr => ?_
  have hn : n.toNat ≤ 256 * 1024 := UInt32.le_iff_toNat_le.mp (UInt32.not_lt.mp hshort)
  rw [hr.2.1, length_take]
  omega

variable {q : BusyThreadReadBuffer} {m : Bytes} {msgs : List Bytes}

theorem take_fails {asString : Bool} {r : List Bytes} {rest : Bytes}
    (hread : Half q.readBuf q.nReadBufMsgs (m :: r) rest) (hlong : 256 * 1024 < m.length)
    (out : Buffer) : wp (BusyThreadReadBuffer.take asString) never any (q, out) := by
  have hcontents : q.readBuf.contents = putString m ++ (frames r ++ rest) := by
    rw [hread.contents, frames_cons, append_assoc]
  have hspec := Buffer.getString_spec (hread.short m mem_cons_self) q.readBuf hcontents
  rw [BusyThreadReadBuffer.take, wp_update, wp_bind, wp_zoom]
  refine wp_weaken (wp_and hspec (getString_short _)) fun data b h => ?_
  rw [h.1.1] at h
  exact absurd h.2 (not_le.mpr hlong)

theorem get_fails {asString : Bool} (h : Queues True q (m :: msgs)) (hlong : 256 * 1024 < m.length)
    (out : Buffer) : wp (BusyThreadReadBuffer.get asString) never any (q, out) := by
  obtain ⟨r, w, rest, rest', hr, hw, hmsgs, hclean⟩ := h
  have hreadCount := hr.count
  have hwriteCount := hw.count
  rw [BusyThreadReadBuffer.get, wp_read]
  rw [wp_ite, wp_ite, wp_bind, wp_bind]
  cases r with
  | cons m' r =>
    cases hmsgs
    rw [length_cons] at hreadCount
    refine ⟨fun _ => ?_, fun hzero => absurd hreadCount (by omega)⟩
    exact wp_imp (take_fails hr hlong out) fun _ _ hfalse => hfalse.elim
  | nil =>
    rw [nil_append] at hmsgs
    subst hmsgs
    rw [length_cons] at hwriteCount
    refine ⟨fun hne => absurd hreadCount hne, fun _ => ⟨fun _ => ?_, fun hno => ?_⟩⟩
    · rw [wp_modify]
      exact wp_seq (take_fails (q := q.swap) hw hlong out) fun _ _ hfalse => hfalse.elim
    · exact absurd hwriteCount (by omega)

theorem post_fails {s : SessionChannel} (h : SFTPChannel.Open s)
    (hq : Queues True s.toChannel (m :: msgs)) (hlong : 256 * 1024 < m.length) :
    wp (step .post) never any s := by
  rw [wp_step h.live]
  show wp channelPost _ _ _
  rw [channelPost, wp_read, h.opened, if_pos rfl, wp_bind,
    subproc2ascending, wp_bind, wp_zoom]
  exact wp_imp (get_fails hq hlong _) fun _ _ hfalse => hfalse.elim

/-! ## §2 The reply to SSH2_FXP_REALPATH -/

section Reply

variable {ω : Type} (os : Win32 ω) (home : SFTPFilePath) {s : SFTP ω} {id : UInt32}
  {name rest : Bytes}
  {text : Bytes}

/-- The reply comes to the queue, if it is not longer than a chunk. -/
theorem processRealpath_puts (hs : Clear msgs s) (hname : name.length ≤ 256 * 1024)
    (htext : realpath true os home name = .ok text)
    (hfits : (realpathParts id text).flatten.length ≤ bufferMaxChunk) :
    wp (processRealpath os home)
      (fun _ s' => Queues True s'.toChannel (msgs ++ [(realpathParts id text).flatten]))
      never (s.withIqueue (putU32 id ++ (putString name ++ rest))) := by
  have hsends : wp (sendMsg (realpathParts id text))
      (fun _ s' => Queues True s'.toChannel (msgs ++ [(realpathParts id text).flatten]))
      never (s.withIqueue rest) := sendMsg_puts hfits (hs.withIqueue rest)
  have hnames : (sendNames id [{ name := text, longName := text, attrib := {} }] : SftpM ω Unit) =
      sendMsg (realpathParts id text) := by
    rw [sendNames, flatMap_singleton]
    rfl
  rw [processRealpath_eq, guarded, wp_bind, catching, wp_tryCatch, wp_bind, wp_getInt, wp_pure]
  rw [wp_bind, catching, wp_tryCatch, wp_bind, wp_getString hname, htext, wp_bind,
    liftPath, wp_pure,
    wp_bind, hnames]
  refine wp_mono_total hsends fun _ s' hq => ?_
  rw [wp_pure, if_neg (fun hne => hne rfl), wp_pure]
  exact hq

theorem process_puts (hs : Clear msgs s)
    (hmsg : s.iqueue = putString ((Request.realpath name).message id rest))
    (hlen : ((Request.realpath name).message id rest).length ≤ maxString)
    (htext : realpath true os home name = .ok text)
    (hfits : (realpathParts id text).flatten.length ≤ bufferMaxChunk) :
    wp (process os home)
      (fun _ s' => Queues True s'.toChannel (msgs ++ [(realpathParts id text).flatten]))
      never s := by
  have hname : name.length ≤ 256 * 1024 := by
    simp only [Request.message, Request.fields, length_append, putString_length, maxString] at hlen
    omega
  have hsize : ((Request.realpath name).message id rest).length < size :=
    lt_of_le_of_lt hlen (by decide)
  have hswitch : wp (processSwitch os home)
      (fun _ s' => Queues True s'.toChannel (msgs ++ [(realpathParts id text).flatten]))
      never s := by
    have hstate : s = s.withIqueue (putString ((Request.realpath name).message id rest)) := by
      rw [← hmsg]
      rfl
    rw [hstate, putString, processSwitch, wp_bind, wp_getInt, wp_bind, Request.message, wp_getType]
    refine wp_seq_total (processRealpath_puts os home hs hname htext hfits) fun _ s' hq => ?_
    rw [wp_pure]
    exact hq
  exact process_of_switch os home hmsg hsize hswitch fun _ hq => hq

end Reply

/-! ## §3 Main result -/

namespace Dialogue

section Run

variable {ω : Type} (os : Win32 ω) (home : SFTPFilePath) {d : Dialogue ω} {id : UInt32}
  {name : Bytes}
  {text : Bytes}

/-- `process` has been called with the message, and `channel_post` fails on its reply. -/
def Choked (m : Bytes) (d : Dialogue ω) : Prop :=
  d.invoked = [putString m] ∧
    wp (step os home .post) (fun _ _ => False) (fun e _ => ∃ h, e = .channel h) d

theorem get_chokes {m : Bytes} {msgs : List Bytes} {bytes : Bytes} (h : Talks msgs [] [m] bytes d)
    (hreplies : d.replies = []) (hroom : Fits .get d)
    (hm : m = (Request.realpath name).message id []) (hlen : m.length ≤ maxString)
    (htext : realpath true os home name = .ok text)
    (hfits : (realpathParts id text).flatten.length ≤ bufferMaxChunk)
    (hlong : 256 * 1024 < (realpathParts id text).flatten.length) :
    wp (step os home .get) (fun _ => Choked os home m) never d := by
  obtain ⟨w, hw, hwaiting⟩ := h.worker
  obtain ⟨taken, rs, hsum, hqueue, -, -⟩ := h.replies
  obtain ⟨rfl, rfl⟩ := append_eq_nil_iff.mp (hsum.symm.trans hreplies)
  have hbefore : d.received = w.received := by rw [received, hw]
  have hne : m ≠ [] := by
    rw [hm]
    exact cons_ne_nil _ _
  obtain ⟨htaken, hrest⟩ := completeGet_first hwaiting hlen
  rw [step, getMessage, wp_read, wp_bind, wp_onChannel, wp_getCall h.isOpen.live hw,
    wp_read, hbefore]
  show wp (serveNew os home ((completeGet d.channel.fromChannel w).2.received.drop _)) _ _ _
  rw [htaken, drop_left, serveNew, if_neg hne, serve, wp_update, wp_update, wp_bind,
    wp_zoomWith]
  rw [h.iqueue, nil_append, h.invoked]
  have hclear : Clear [] ({ d.sftp with iqueue := putString m, toChannel := d.channel.toChannel } :
      SFTP ω) := ⟨hqueue, hroom⟩
  refine wp_mono_total (process_puts os home hclear (by rw [hm])
    (by rw [← hm]; exact hlen) htext hfits)
    fun _ s' hs' => ?_
  rw [wp_modify]
  refine ⟨rfl, ?_⟩
  rw [step, post, wp_read, wp_bind, wp_onChannel]
  exact wp_mono (post_fails { h.isOpen with } hs' hlong) (fun _ _ hfalse => hfalse.elim)
    fun e _ _ => ⟨e, rfl⟩

theorem data_starts {m : Bytes} (hlen : m.length + 4 ≤ maxString) (version : Int32) (w : ω)
    (remoteId rwindow rmaxpack : UInt32) (reply : Bool) :
    wp (step os home (.data (putString m)))
      (fun _ d => Talks [m] [] [] (frames [m]) d ∧ d.replies = [] ∧ Fits .post d) never
      (start version w remoteId rwindow rmaxpack reply) := by
  have hfresh := start_fresh version w remoteId rwindow rmaxpack reply
  have htalks := start_talks [m] version w remoteId rwindow rmaxpack reply
  have hsize : (putString m).length ≤ 256 * 1024 := by
    rw [putString_length, add_comm]
    exact hlen
  have hwindow : ofNat (putString m).length ≤
      (start version w remoteId rwindow rmaxpack reply).channel.base.localWindow := by
    have hnat : (ofNat (putString m).length).toNat = (putString m).length :=
      toNat_ofNat_of_lt (lt_of_le_of_lt hsize (by decide))
    rw [hfresh.window, le_iff_toNat_le, hnat]
    exact hsize.trans (by decide)
  have hempty : Buffer.init.len + 4 ≤ 6 * bufferMaxChunk := by decide
  have hroom : wp (step os home (.data (putString m)))
      (fun _ d => d.replies = [] ∧ Fits .post d) never
      (start version w remoteId rwindow rmaxpack reply) := by
    rw [step, wp_onChannel]
    refine wp_mono_total (data_appends hfresh.isOpen hsize hwindow hfresh.granted.room)
      fun _ c hc => ⟨rfl, ?_⟩
    obtain ⟨-, -, hfrom, -, -, -, hascending⟩ := hc
    refine ⟨?_, ?_⟩
    · show c.base.ascending.len + 4 ≤ _
      rw [hascending, hfresh.ascending]
      exact hempty
    · show c.fromChannel.writeBuf.len + 4 ≤ _
      rw [hfrom, hfresh.fromChannel]
      exact hempty
  have hframes : [] ++ putString m = frames [m] := by
    rw [nil_append, frames_cons]
    exact (append_nil _).symm
  have hdata := data_talks os home htalks ⟨hsize, hwindow⟩
  rw [hframes] at hdata
  exact wp_and_mono hdata hroom fun _ _ h => h

theorem post_starts {m : Bytes} (hpos : 1 ≤ m.length) (hlen : m.length ≤ maxString)
    (h : Talks [m] [] [] (frames [m]) d) (hreplies : d.replies = []) (hfits : Fits .post d) :
    wp (step os home .post)
      (fun _ d' => Talks [m] [] [m] (frames [m]) d' ∧ d'.replies = [] ∧ Fits .get d')
      never d := by
  have hmsgs : ∀ m' ∈ [m], 1 ≤ m'.length ∧ m'.length ≤ maxString := by
    intro m' hm'
    rw [mem_singleton.mp hm']
    exact ⟨hpos, hlen⟩
  have hsame : wp (step os home .post) (fun _ d' => d'.replies = []) any d := by
    rw [step, post, wp_read, wp_bind, wp_onChannel]
    refine wp_intro (fun _ c _ => ?_) fun _ _ _ => trivial
    rw [wp_modify]
    exact hreplies
  refine wp_and_mono (post_talks os home h prefix_rfl hmsgs hfits) hsame fun _ d' h' => ?_
  obtain ⟨⟨more, htalks, hall⟩, hnone⟩ := h'
  have hmore : [] ++ more = [m] := by
    have horder : [] ++ more <+: [m] := htalks.order
    rcases prefix_cons_iff.mp horder with hnil | ⟨t, ht, hprefix⟩
    · cases hall rfl hnil
    · rw [ht, prefix_nil.mp hprefix]
  rw [hmore] at htalks
  refine ⟨htalks, hnone, ?_⟩
  -- nothing has been put into the queue of replies
  obtain ⟨taken, rs, hsum, hqueue, -, -⟩ := htalks.replies
  obtain ⟨rfl, rfl⟩ := append_eq_nil_iff.mp (hsum.symm.trans hnone)
  obtain ⟨r, wr, rest, rest', -, hw, hnil, hclean⟩ := hqueue
  obtain ⟨-, rfl⟩ := append_eq_nil_iff.mp hnil.symm
  have hempty : d'.channel.toChannel.writeBuf.contents = [] := by
    rw [hw.contents, (hclean trivial).2]
    rfl
  show d'.channel.toChannel.writeBuf.len + 4 ≤ _
  rw [← Buffer.contents_length, hempty]
  decide

/-- **A reply that is too long for `buffer_get_string` ends the connection**, after `process` has
returned. -/
theorem realpath_chokes (hlen : ((Request.realpath name).message id []).length + 4 ≤ maxString)
    (htext : realpath true os home name = .ok text)
    (hfits : 2 * (cstr text).length + 21 ≤ bufferMaxChunk)
    (hlong : 256 * 1024 < 2 * (cstr text).length + 21) (version : Int32) (w : ω)
    (remoteId rwindow rmaxpack : UInt32) (reply : Bool) :
    wp (runAll (step os home) [.data (putString ((Request.realpath name).message id [])),
    .post, .get])
      (fun _ => Choked os home ((Request.realpath name).message id [])) never
      (start version w remoteId rwindow rmaxpack reply) := by
  rw [← realpathParts_length id] at hfits hlong
  have hshort := Nat.le_of_add_right_le hlen
  have hpos : 1 ≤ ((Request.realpath name).message id []).length := Nat.succ_pos _
  rw [runAll]
  refine wp_seq_total (data_starts os home hlen version w remoteId rwindow rmaxpack reply)
    fun _ d1 h1 => ?_
  rw [runAll]
  refine wp_seq_total (post_starts os home hpos hshort h1.1 h1.2.1 h1.2.2) fun _ d2 h2 => ?_
  rw [runAll]
  refine wp_seq_total (get_chokes os home h2.1 h2.2.1 h2.2.2 rfl hshort htext hfits hlong)
    fun _ d3 h3 => ?_
  rw [runAll, wp_pure]
  exact h3

end Run

/-! ### A path of 131072 characters -/

/-- `C:\home\aa…a` -/
def longPath (n : Nat) : SFTPFilePath where
  path := [wstr ['h', 'o', 'm', 'e'], List.replicate n (L 'a')]
  drive := L 'c'
  isRelative := false
  nUserHomePos := 1
  notRelative := rfl

/-- `/c:/home/aa…a` -/
def longName (n : Nat) : Bytes := ascii "/c:/home/" ++ List.replicate n 97

theorem longName_length (n : Nat) : (longName n).length = n + 9 := by
  rw [longName, length_append, length_replicate, add_comm]
  rfl

variable {n : Nat}

theorem mem_longName {x : UInt8} (hx : x ∈ longName n) : x ∈ ascii "/c:/home/a" := by
  have hsplit : ascii "/c:/home/a" = ascii "/c:/home/" ++ [97] := by decide
  rw [hsplit, mem_append, mem_singleton]
  exact (mem_append.mp hx).imp_right eq_of_mem_replicate

theorem cstr_longName (n : Nat) : cstr (longName n) = longName n := by
  have hzero : 0 ∉ ascii "/c:/home/a" := by decide
  exact cstr_of_notMem fun hx => hzero (mem_longName hx)

/-- The name as a wide string is the client's form of the path. -/
theorem fromUTF8_longName (n : Nat) :
    fromUTF8 (brokenSystem 2) (longName n) =
      L '/' :: L 'c' :: L ':' :: L '/' :: Path.joinDirs (L '/') (longPath n).path := by
  have hwide : fromUTF8 (brokenSystem 2) (longName n) =
      (longName n).map fun c => UInt16.ofNat c.toNat := by
    rw [fromUTF8, cstr_longName]
    rfl
  rw [hwide, longName, map_append, map_replicate]
  rfl

theorem toUTF8_longName (n : Nat) :
    toUTF8 (brokenSystem 2) (fromUTF8 (brokenSystem 2) (longName n)) = longName n := by
  have hback : ∀ y : UInt8, UInt8.ofNat (UInt16.ofNat y.toNat).toNat = y := by
    intro y
    rw [UInt16.toNat_ofNat_of_lt' (y.toNat_lt.trans (by decide)), UInt8.ofNat_toNat]
  have hsame : (brokenSystem 2).ofWide ((brokenSystem 2).toWide (longName n)) = longName n := by
    show ((longName n).map fun c => UInt16.ofNat c.toNat).map (fun c => UInt8.ofNat c.toNat) = _
    rw [map_map]
    conv_rhs => rw [← map_id (longName n)]
    exact map_congr_left fun x _ => hback x
  rw [toUTF8, fromUTF8, cstr_longName, hsame, cstr_longName]

theorem longPath_plain (hn : 3 ≤ n) : ∀ c ∈ (longPath n).path, IsClientDir c := by
  have hletters : ∀ x ∈ replicate n (L 'a'), x = L 'a' := fun x hx => eq_of_mem_replicate hx
  have hlength : ∀ c : WString, c.length < 3 → replicate n (L 'a') ≠ c := by
    intro c hc heq
    rw [← heq, length_replicate] at hc
    omega
  have hdir : IsClientDir (replicate n (L 'a')) := by
    refine ⟨⟨⟨hlength _ (by decide), fun x hx => ?_⟩, hlength _ (by decide), hlength _ (by decide)⟩,
      fun hx => ?_⟩
    · rw [hletters x hx]
      decide
    · cases hletters _ hx
  have hhome : IsClientDir (wstr ['h', 'o', 'm', 'e']) := by
    have hall : (wstr ['h', 'o', 'm', 'e']).all (!isSeparator ·) = true := by decide
    refine ⟨⟨⟨by decide, fun x hx => isSeparator_eq_false.mp ?_⟩, by decide, by decide⟩, by decide⟩
    simpa using all_eq_true.mp hall x hx
  intro c hc
  rcases mem_cons.mp hc with rfl | hc
  · exact hhome
  · rw [mem_singleton.mp hc]
    exact hdir

theorem longPath_belowHome (hn : 3 ≤ n) : BelowHome someHome.toPath (longPath n).toPath := by
  have hplain := longPath_plain hn
  refine ⟨rfl, rfl, fun c hc => (hplain c hc).1, ?_, fun _ c hc => (hplain c hc).2⟩
  refine ⟨[wstr ['h', 'o', 'm', 'e']], [replicate n (L 'a')], rfl, ?_, fun c hc => ?_⟩
  · exact List.Forall₂.cons (isEqualIgnoreCase_refl _) .nil
  · exact (hplain c (mem_cons_of_mem _ hc)).2

theorem realpath_longName (hn : 3 ≤ n) :
    realpath true (brokenSystem 2) someHome (longName n) = .ok (longName n) := by
  have hpath : createPath true someHome (fromUTF8 (brokenSystem 2) (longName n)) =
      .ok (longPath n) := by
    rw [fromUTF8_longName]
    exact createPath_unixForm (p := longPath n) (by decide) (by decide) (longPath_belowHome hn) rfl
      fun c hc => (longPath_plain hn c hc).2
  have htext : (longPath n).unixForm true = .ok (fromUTF8 (brokenSystem 2) (longName n)) := by
    have hdrive : (longPath n).drive ≠ L '?' := by
      show L 'c' ≠ L '?'
      decide
    rw [unixForm_eq _ hdrive, fromUTF8_longName]
    rfl
  have hback := toUTF8_longName n
  simp only [realpath, hpath, htext, hback, bind, Except.bind]

/-- `process` returns, and `channel_post` throws on its reply. -/
theorem longName_chokes (hlong : 131053 ≤ n) (hshort : n ≤ 262000) :
    let msg := (Request.realpath (longName n)).message 1 []
    let events : List Event := [.data (putString msg), .post, .get]
    let d := endState (runAll (step (brokenSystem 2) someHome) events) (start 3 () 7 100 100 true)
    msg.length ≤ maxString ∧
      runAll (step (brokenSystem 2) someHome) events (start 3 () 7 100 100 true) = .ok () d ∧
      d.invoked = [putString msg] ∧
      ∃ h d', step (brokenSystem 2) someHome .post d = .error (.channel h) d' := by
  intro msg events d
  have hname := longName_length n
  have hlen : msg.length + 4 ≤ maxString := by
    show ((Request.realpath (longName n)).message 1 []).length + 4 ≤ maxString
    rw [Request.message, Request.fields, append_nil, length_append, length_append,
      putString_length, hname, putU32_length, length_singleton, maxString]
    omega
  have hreply : 2 * (cstr (longName n)).length + 21 = 2 * n + 39 := by
    rw [cstr_longName, hname]
    omega
  have hrun := realpath_chokes (brokenSystem 2) someHome hlen
    (realpath_longName (by omega)) (by rw [hreply, bufferMaxChunk]; omega) (by rw [hreply]; omega)
    3 () 7 100 100 true
  obtain ⟨u, d', hok, hinvoked, hpost⟩ := ok_of_wp_total hrun
  have hd : d = d' := by
    show endState _ _ = d'
    rw [endState, hok]
  refine ⟨Nat.le_of_add_right_le hlen, by rw [hd]; exact hok, by rw [hd]; exact hinvoked, ?_⟩
  rw [hd]
  cases hstep : step (brokenSystem 2) someHome .post d' with
  | ok _ _ => exact ((wp_of_ok hstep).mp hpost).elim
  | error e d'' =>
    obtain ⟨h, rfl⟩ := (wp_of_error hstep).mp hpost
    exact ⟨h, d'', rfl⟩

/-- SSH2_FXP_REALPATH for a path of 131081 characters, with a reply of 262183 bytes -/
theorem long_realpath_chokes :
    let msg := (Request.realpath (longName 131072)).message 1 []
    let events : List Event := [.data (putString msg), .post, .get]
    let d := endState (runAll (step (brokenSystem 2) someHome) events) (start 3 () 7 100 100 true)
    msg.length ≤ maxString ∧
      runAll (step (brokenSystem 2) someHome) events (start 3 () 7 100 100 true) = .ok () d ∧
      d.invoked = [putString msg] ∧
      ∃ h d', step (brokenSystem 2) someHome .post d = .error (.channel h) d' :=
  longName_chokes (by decide) (by decide)

end Dialogue

end Shiesh.Sftp
