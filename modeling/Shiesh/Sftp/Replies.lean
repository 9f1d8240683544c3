import Shiesh.Channels.Fifo
import Shiesh.Sftp.Frames

/-!
# Replies of the SFTP Server

A reply is put into the queue to the channel as one message. It gets there whole when it is not
longer than a chunk and the buffer holds no more than 6 MB; of a longer one only the length field
gets there.
-/

namespace Shiesh.Sftp

open Shiesh.Lib Shiesh.Channels List Buffer

variable {ω : Type} {h : Halves Bytes} {id : UInt32} {s : SFTP ω}

/-! ## The queue -/

/-- The queue holds these messages and nothing else. -/
def Holding (q : BusyThreadReadBuffer) (h : Halves Bytes) : Prop :=
  HoldsHalves q.readBuf q.writeBuf q.nReadBufMsgs q.nWriteBufMsgs h

/-- A message that answers the request with this id -/
def IsReply (id : UInt32) (m : Bytes) : Prop :=
  ∃ type ∈ [Fxp.status, Fxp.handle, Fxp.data, Fxp.name, Fxp.attrs], ∃ rest,
    m = [type] ++ putU32 id ++ rest

/-- One reply to the request has come to the messages of before. -/
def Sent (id : UInt32) (h : Halves Bytes) (q : BusyThreadReadBuffer) : Prop :=
  ∃ reply, IsReply id reply ∧ Holding q (h.put reply)

/-- There is room for a reply behind the messages. -/
structure Ready (h : Halves Bytes) (s : SFTP ω) : Prop where
  holding : Holding s.toChannel h
  room : s.toChannel.writeBuf.len + 8 ≤ 6 * bufferMaxChunk

theorem ready_framed (h : Halves Bytes) : Framed (Ready (ω := ω) h) := by
  intro s s' _ hchannel hs
  refine ⟨?_, ?_⟩
  · rw [hchannel]
    exact hs.holding
  · rw [hchannel]
    exact hs.room

/-- As long as nothing was put, nothing was sent. -/
theorem Ready.not_sent (hs : Ready h s) : ¬Sent id h s.toChannel := by
  intro hsent
  obtain ⟨reply, -, hq⟩ := hsent
  have hbefore := hs.holding.write.count
  have hafter := hq.write.count
  rw [hbefore, Halves.put, length_append, length_singleton] at hafter
  omega

/-! ## Messages -/

variable {parts : List Bytes} {long : Bytes} (b : Bytes)

theorem appendAll_fits (hparts : ∀ part ∈ parts, part.length ≤ bufferMaxChunk)
    {b : Buffer} (hlen : b.len + parts.flatten.length ≤ 6 * bufferMaxChunk) :
    wp (appendAll parts) (fun _ b' => b'.contents = b.contents ++ parts.flatten)
      never b := by
  induction parts generalizing b with
  | nil =>
    rw [appendAll, wp_pure, flatten_nil, append_nil]
  | cons part parts ih =>
    rw [flatten_cons, length_append] at hlen
    rw [appendAll]
    refine wp_seq_total (append_fits (by omega) (hparts part mem_cons_self))
      fun _ b1 h1 => ?_
    have hlen1 : b1.len = b.len + part.length := by
      rw [← contents_length, h1, length_append, contents_length]
    refine wp_mono_total (ih (fun p hp => hparts p (mem_cons_of_mem _ hp)) (by omega))
      fun _ b2 h2 => ?_
    rw [h2, h1, flatten_cons, append_assoc]

/-- A part that is longer than a chunk cannot be appended. -/
theorem appendAll_rejects (hlong : long ∈ parts)
    (hlen : bufferMaxChunk < long.length) (b : Buffer) : wp (appendAll parts) never any b := by
  induction parts generalizing b with
  | nil => cases hlong
  | cons part parts ih =>
    rw [appendAll, wp_bind]
    rcases mem_cons.mp hlong with rfl | hrest
    · rw [append, wp_read, wp_bind, appendSpace, if_pos hlen, liftE, wp_throw]
      trivial
    · exact wp_intro (fun _ b1 _ => ih hrest b1) fun _ _ _ => trivial

/-- What becomes of a message that has been made -/
theorem wp_sendMsg {Q : Unit → SFTP ω → Prop}
    {E : SftpError → SFTP ω → Prop} (hparts : ∀ part ∈ parts, part.length ≤ bufferMaxChunk)
    (hlen : parts.flatten.length ≤ 6 * bufferMaxChunk)
    (hput : wp (Buffer.putString parts.flatten)
      (fun _ b => Q () { s with toChannel := { s.toChannel with
        writeBuf := b, nWriteBufMsgs := s.toChannel.nWriteBufMsgs + 1, dataReady := true } })
      (fun e b => E (.halt e) { s with toChannel := { s.toChannel with writeBuf := b } })
      s.toChannel.writeBuf) : wp (sendMsg parts) Q E s := by
  have hinit : Buffer.init.len + parts.flatten.length ≤ 6 * bufferMaxChunk := by
    rw [show Buffer.init.len = 0 from rfl, zero_add]
    exact hlen
  obtain ⟨_, b, hmade, hcontents⟩ := ok_of_wp_total (appendAll_fits hparts hinit)
  rw [Buffer.contents_init, nil_append] at hcontents
  rw [sendMsg, hmade]
  show wp (zoomWith _ _ _ (BusyThreadReadBuffer.put b.contents)) Q E s
  rw [hcontents, wp_zoomWith, BusyThreadReadBuffer.put, wp_bind, wp_zoom]
  exact wp_imp hput fun _ _ hQ => (wp_modify _).mpr hQ

/-- Nothing changes when the message cannot be made. -/
theorem sendMsg_rejects (hlong : long ∈ parts) (hlen : bufferMaxChunk < long.length) :
    wp (sendMsg parts) never (fun _ s' => s' = s) s := by
  have hfails := appendAll_rejects hlong hlen .init
  rw [sendMsg]
  cases hmade : appendAll parts .init with
  | error e _ => exact (wp_throw _).mpr rfl
  | ok _ b => exact ((wp_of_ok hmade).mp hfails).elim

theorem part_length_le {part : Bytes} (hpart : part ∈ parts) : part.length ≤ parts.flatten.length :=
  (sublist_flatten_of_mem hpart).length_le

/-- A message that is a reply, and not too long, is sent. -/
theorem sendMsg_sent (hs : Ready h s) (hreply : IsReply id parts.flatten)
    (hlen : parts.flatten.length ≤ bufferMaxChunk) :
    wp (sendMsg parts) (fun _ s' => Sent id h s'.toChannel) never s := by
  have hshort : parts.flatten.length < UInt32.size := lt_of_le_of_lt hlen (by decide)
  have hroom := hs.room
  refine wp_sendMsg (fun part hpart => le_trans (part_length_le hpart) hlen) (by omega) ?_
  refine wp_mono_total (Buffer.putString_fits (by omega) hlen) fun _ b hb => ?_
  exact ⟨_, hreply, hs.holding.put hshort hb⟩

/-! ## Lengths -/

theorem cstr_length_le : (cstr b).length ≤ b.length :=
  (takeWhile_sublist _).length_le

@[simp] theorem stringParts_flatten : (stringParts b).flatten = putString b := by
  simp [stringParts, putString]

@[simp] theorem cstringParts_flatten : (cstringParts b).flatten = putCstring b :=
  stringParts_flatten (cstr b)

theorem putCstring_length_le : (putCstring b).length ≤ 4 + b.length := by
  rw [putCstring, putString_length]
  exact Nat.add_le_add_left (cstr_length_le b) 4

theorem putIf_length_le (present : Bool) (b : Bytes) : (putIf present b).length ≤ b.length := by
  cases present with
  | true => exact le_rfl
  | false => exact Nat.zero_le _

theorem encodeAttrib_length_le (a : Attrib) : (encodeAttrib a).length ≤ 32 := by
  have hsize := putIf_length_le (hasFlag a.flags Attr.size) (putU64 a.size)
  have howner := putIf_length_le (hasFlag a.flags Attr.uidgid) (putU32 a.uid ++ putU32 a.gid)
  have hperm := putIf_length_le (hasFlag a.flags Attr.permissions) (putU32 a.perm)
  have htimes :=
    putIf_length_le (hasFlag a.flags Attr.acmodtime) (putU32 a.atime ++ putU32 a.mtime)
  simp only [length_append, putU32_length, putU64_length] at hsize howner hperm htimes
  simp only [encodeAttrib, length_append, putU32_length]
  omega

theorem statusToMessage_length_le (status : UInt32) : (statusToMessage status).length ≤ 32 := by
  have hall : ∀ m ∈ "" :: statusMessages, (ascii m).length ≤ 32 := by decide
  apply hall
  rw [getD_eq_getElem?_getD]
  cases hget : statusMessages[(min status Fx.max).toNat]? with
  | none => exact mem_cons_self
  | some m => exact mem_cons_of_mem _ (mem_of_getElem? hget)

theorem handleToString_length_le (handle : Int) : (handleToString handle).length ≤ 32 := by
  have hlow := (Int32.ofInt handle).le_toInt
  have hhigh := (Int32.ofInt handle).toInt_lt
  have hdigits : (Nat.toDigits 10 (Int32.ofInt handle).toInt.natAbs).length ≤ 10 :=
    (Nat.length_toDigits_le_iff (by decide) (by decide)).mpr (by omega)
  have hsign : (if (Int32.ofInt handle).toInt < 0 then ascii "-" else []).length ≤ 1 := by
    split
    · decide
    · decide
  simp only [handleToString, length_append, length_map, length_singleton]
  omega

theorem padLeft_length_le (width : Nat) (w : WString) :
    (padLeft width w).length ≤ width + w.length := by
  rw [padLeft, length_append, length_replicate]
  omega

theorem lsFile_length_le {tbuf : WString} (htbuf : tbuf.length ≤ 32) (st : FindData) :
    (lsFile tbuf st).length ≤ 400 := by
  have hname := st.short
  have hmode : (strmode (toPOSIXFilePerm st.dwFileAttributes)).length = 11 := rfl
  have huser : (padRight 8 (wstr ['u', 's', 'e', 'r'])).length = 8 := rfl
  have hgroup : (padRight 8 (wstr ['g', 'r', 'o', 'u', 'p'])).length = 8 := rfl
  have hsize := padLeft_length_le 8 (wstr (Nat.toDigits 10 st.nFileSize.toNat))
  have hdigits : (wstr (Nat.toDigits 10 st.nFileSize.toNat)).length ≤ 20 := by
    rw [wstr, length_map]
    refine (Nat.length_toDigits_le_iff (by decide) (by decide)).mpr ?_
    exact lt_of_lt_of_le st.nFileSize.toNat_lt (by decide)
  simp only [lsFile, length_append, length_singleton, hmode, huser, hgroup]
  omega

theorem toUTF8_length_le (os : Win32 ω) (w : WString) : (toUTF8 os w).length ≤ 3 * w.length :=
  le_trans (cstr_length_le _) (os.ofWide_length w)

theorem statOf_length_le (os : Win32 ω) (st : FindData) :
    (statOf os st).parts.flatten.length ≤ 2100 := by
  have hname := toUTF8_length_le os st.cFileName
  have hshort := st.short
  have hlong := toUTF8_length_le os (lsFile (os.formatTime st.ftLastWriteTime) st)
  have hls := lsFile_length_le (os.formatTime_length st.ftLastWriteTime) st
  have hattrib := encodeAttrib_length_le (statToAttrib st.toFileInfo)
  have hname' := putCstring_length_le (toUTF8 os st.cFileName)
  have hlong' :=
    putCstring_length_le (toUTF8 os (lsFile (os.formatTime st.ftLastWriteTime) st))
  simp only [statOf, Stat.parts, flatten_append, cstringParts_flatten, flatten_cons,
    flatten_nil, append_nil, length_append]
  omega

/-! ## Replies -/

/-- The parts of a reply begin with its type and the id. -/
theorem isReply_parts {type : UInt8}
    (htype : type ∈ [Fxp.status, Fxp.handle, Fxp.data, Fxp.name, Fxp.attrs]) (id : UInt32)
    (parts : List Bytes) : IsReply id ([type] :: putU32 id :: parts).flatten :=
  ⟨type, htype, parts.flatten, by simp⟩

theorem status_length_le (version : Int32) (id status : UInt32) :
    ([[Fxp.status], putU32 id, putU32 status] ++
      (if version ≥ 3 then cstringParts (statusToMessage status) ++ cstringParts [] else
        [])).flatten.length ≤ 64 := by
  have hmessage := statusToMessage_length_le status
  have htext := putCstring_length_le (statusToMessage status)
  have hempty : (putCstring []).length = 4 := rfl
  split
  · simp [hempty]
    omega
  · simp

theorem dataOrHandle_length (type : UInt8) (id : UInt32) (data : Bytes) :
    ([[type], putU32 id] ++ stringParts data).flatten.length = 9 + data.length := by
  simp [putString_length]
  omega

theorem attrib_length_le (id : UInt32) (a : Attrib) :
    [[Fxp.attrs], putU32 id, encodeAttrib a].flatten.length ≤ 64 := by
  have hlen := encodeAttrib_length_le a
  simp
  omega

theorem names_length (id : UInt32) (stats : List Stat) :
    ([[Fxp.name], putU32 id, putU32 (UInt32.ofNat stats.length)] ++
      stats.flatMap Stat.parts).flatten.length = 9 + (stats.flatMap Stat.parts).flatten.length := by
  rw [flatten_append, length_append]
  rfl

theorem sendStatus_sent (hs : Ready h s) (id status : UInt32) :
    wp (sendStatus id status) (fun _ s' => Sent id h s'.toChannel) never s := by
  rw [sendStatus, wp_read]
  refine sendMsg_sent hs (isReply_parts (by decide) id _) ?_
  exact le_trans (status_length_le s.version id status) (by decide)

theorem sendHandle_sent (hs : Ready h s) (id : UInt32) (handle : Int) :
    wp (sendHandle id handle) (fun _ s' => Sent id h s'.toChannel) never s := by
  have hlen := handleToString_length_le handle
  refine sendMsg_sent hs (isReply_parts (by decide) id _) ?_
  rw [dataOrHandle_length]
  exact le_trans (Nat.add_le_add_left hlen 9) (by decide)

theorem sendData_sent (hs : Ready h s) (id : UInt32) {data : Bytes} (hlen : data.length ≤ 65536) :
    wp (sendData id data) (fun _ s' => Sent id h s'.toChannel) never s := by
  refine sendMsg_sent hs (isReply_parts (by decide) id _) ?_
  rw [dataOrHandle_length]
  exact le_trans (Nat.add_le_add_left hlen 9) (by decide)

theorem sendAttrib_sent (hs : Ready h s) (id : UInt32) (a : Attrib) :
    wp (sendAttrib id a) (fun _ s' => Sent id h s'.toChannel) never s := by
  refine sendMsg_sent hs (isReply_parts (by decide) id _) ?_
  exact le_trans (attrib_length_le id a) (by decide)

theorem sendNames_sent (hs : Ready h s) (id : UInt32) {stats : List Stat}
    (hlen : 9 + (stats.flatMap Stat.parts).flatten.length ≤ bufferMaxChunk) :
    wp (sendNames id stats) (fun _ s' => Sent id h s'.toChannel) never s := by
  refine sendMsg_sent hs (isReply_parts (by decide) id _) ?_
  rw [names_length]
  exact hlen

end Shiesh.Sftp
