import Shiesh.Sftp.Attrib

/-!
# What Attributes Survive

Two codecs of `sftp-common.cpp`, each with the exact condition under which it gives back what it
was given.

- `encode_attrib` and `decode_attrib`: the only part of the flags word that the writer does not
  know about is `SSH2_FILEXFER_ATTR_EXTENDED`
- `attrib_to_stat` and `stat_to_attrib`: the first takes the permissions from the wrong field, the
  second takes both times from the same field

The reader also runs a loop whose length the peer chooses; its turns are counted.
-/

namespace Shiesh.Sftp

open Shiesh.Lib FileAttribute List Nat Mode
open Attr (acmodtime extended permissions uidgid)

variable {α β : Type}

/-! ## §1 Readers -/

/-- From `b` the reader gets `a`, whatever stands behind `b`, and leaves that. -/
def Decodes (g : Get α) (b : Bytes) (a : α) : Prop := ∀ rest, g (b ++ rest) = .ok a rest

namespace Decodes

variable {g : Get α}

theorem pure (a : α) : Decodes (Pure.pure a) [] a := fun _ => rfl

theorem bind {k : α → Get β} {b b' : Bytes} {a : α} {a' : β} (hg : Decodes g b a)
    (hk : Decodes (k a) b' a') : Decodes (g >>= k) (b ++ b') a' := by
  intro rest
  rw [append_assoc, bind_of_ok (hg (b' ++ rest))]
  exact hk rest

theorem bytes (msg : String) {b : Bytes} {len : Nat} (h : b.length = len) :
    Decodes (bufferGetOr msg len) b b := by
  intro rest
  have hread : wp (bufferGetOr msg len) (fun x b' => x = b ∧ b' = rest) never
      (b ++ rest) := (wp_bufferGetOr msg h).mpr ⟨rfl, rfl⟩
  obtain ⟨_, _, hok, rfl, rfl⟩ := ok_of_wp_total hread
  exact hok

theorem int (v : UInt32) : Decodes bufferGetInt (putU32 v) v := by
  intro rest
  rw [bufferGetInt, bind_of_ok (bytes _ (putU32_length v) rest), getU32_putU32]
  rfl

theorem int64 (v : UInt64) : Decodes bufferGetInt64 (putU64 v) v := by
  intro rest
  have hv : v.toNat % 256 ^ 8 = v.toNat := mod_eq_of_lt v.toNat_lt
  rw [bufferGetInt64, bind_of_ok (bytes _ (putU64_length v) rest), putU64, beNat_beBytes, hv,
    UInt64.ofNat_toNat]
  rfl

/-- A part that is there only with its flag, with the default for one that is not there. -/
theorem optional {b : Bytes} {a default : α} {present : Bool} (hg : Decodes g b a)
    (hdefault : present = false → a = default) :
    Decodes (getIf present default g) (putIf present b) a := by
  cases present with
  | true => exact hg
  | false =>
    rw [hdefault rfl]
    exact pure default

end Decodes

/-- On success at least `n` bytes have been taken from the front, and what can be thrown is
`fatal`. -/
def Takes (n : Nat) (g : Get α) : Prop :=
  ∀ b, wp g (fun _ rest => ∃ front, b = front ++ rest ∧ n ≤ front.length)
    (fun e _ => ∃ msg, e = .fatal msg []) b

namespace Takes

variable {n m : Nat}

theorem pure (a : α) : Takes 0 (Pure.pure a : Get α) := fun _ =>
  (wp_pure a).mpr ⟨[], rfl, le_refl 0⟩

theorem throw (msg : String) : Takes n (throw (.fatal msg []) : Get α) := fun _ =>
  (wp_throw _).mpr ⟨msg, rfl⟩

theorem bind {k : α → Get β} (hg : Takes n g) (hk : ∀ a, Takes m (k a)) :
    Takes (n + m) (g >>= k) := by
  intro b
  refine wp_seq (hg b) fun a b1 h => ?_
  obtain ⟨front, rfl, hn⟩ := h
  refine wp_imp (hk a b1) fun _ rest h => ?_
  obtain ⟨front', rfl, hm⟩ := h
  refine ⟨front ++ front', (append_assoc ..).symm, ?_⟩
  rw [length_append]
  exact Nat.add_le_add hn hm

theorem mono (hg : Takes n g) (h : m ≤ n) : Takes m g := fun b =>
  wp_imp (hg b) fun _ _ hb => hb.imp fun _ hfront => ⟨hfront.1, h.trans hfront.2⟩

theorem ite {c : Prop} [Decidable c] {g g' : Get α} (hg : Takes n g) (hg' : Takes n g') :
    Takes n (if c then g else g') := by
  split
  · exact hg
  · exact hg'

theorem bytes (msg : String) (len : Nat) : Takes len (bufferGetOr msg len) := by
  intro b
  rw [bufferGetOr, wp_read]
  by_cases hlen : len > b.length
  · simp only [bufferGetRet, if_pos hlen, wp_throw]
    exact ⟨msg, rfl⟩
  · simp only [bufferGetRet, if_neg hlen, wp_bind, wp_set, wp_pure]
    refine ⟨b.take len, (take_append_drop len b).symm, ?_⟩
    rw [length_take]
    omega

theorem int : Takes 4 bufferGetInt := (bytes _ 4).bind fun _ => pure _

theorem int64 : Takes 8 bufferGetInt64 := (bytes _ 8).bind fun _ => pure _

theorem string : Takes 4 bufferGetString :=
  int.bind fun _ => ite (throw _) ((bytes _ _).mono (zero_le _))

theorem optional {present : Bool} {default : α} (hg : Takes n g) :
    Takes 0 (getIf present default g) := ite (hg.mono (zero_le n)) (pure default)

end Takes

variable (count : Nat)

/-! ## §2 Attributes in messages -/

/-- `decode_attrib` before its extensions -/
def attribFields : Get Attrib := do
  let flags ← bufferGetInt
  let size ← getIf (hasFlag flags Attr.size) 0 bufferGetInt64
  let uid ← getIf (hasFlag flags uidgid) 0 bufferGetInt
  let gid ← getIf (hasFlag flags uidgid) 0 bufferGetInt
  let perm ← getIf (hasFlag flags permissions) 0 bufferGetInt
  let atime ← getIf (hasFlag flags acmodtime) 0 bufferGetInt
  let mtime ← getIf (hasFlag flags acmodtime) 0 bufferGetInt
  pure { flags, size, uid, gid, perm, atime, mtime }

/-- How many turns the loop of the extensions is to make -/
def extensionCount (flags : UInt32) : Get Nat :=
  if hasFlag flags extended then do
    let count ← bufferGetInt
    pure count.toInt32.toInt.toNat
  else
    pure 0

theorem decodeAttrib_eq : decodeAttrib =
    attribFields >>= fun a => extensionCount a.flags >>= fun count =>
      getExtensions count >>= fun _ => pure a := by
  simp only [decodeAttrib, attribFields, bind_assoc, pure_bind]
  -- they differ only in what comes after the last field
  refine bind_congr fun flags => bind_congr fun _ => bind_congr fun _ => bind_congr fun _ =>
    bind_congr fun _ => bind_congr fun _ => bind_congr fun _ => ?_
  unfold extensionCount
  split
  · simp only [bind_assoc, pure_bind]
  · simp only [pure_bind, getExtensions]

/-- `decode_attrib` up to its loop -/
def loopCount : Get Nat := do
  let a ← attribFields
  extensionCount a.flags

/-- One turn of the loop -/
def getExtension : Get Unit := do
  let _ ← bufferGetString
  let _ ← bufferGetString

theorem getExtensions_succ :
    getExtensions (count + 1) = getExtension >>= fun _ => getExtensions count := by
  simp only [getExtensions, getExtension, bind_assoc, pure_bind]

/-- The turns of the loop that are begun. A turn that fails is the last one. -/
def extensionTurns : Nat → Bytes → Nat
  | 0, _ => 0
  | count + 1, b =>
    match getExtension b with
    | .ok _ rest => extensionTurns count rest + 1
    | .error _ _ => 1

/-- The turns that `decode_attrib` begins -/
def decodeTurns (b : Bytes) : Nat :=
  match loopCount b with
  | .ok count rest => extensionTurns count rest
  | .error _ _ => 0

/-- The turns that are counted are those of the loop: it may as well stop after them. -/
theorem getExtensions_turns (b : Bytes) :
    getExtensions count b = getExtensions (extensionTurns count b) b := by
  induction count generalizing b with
  | zero => rfl
  | succ count ih =>
    rw [extensionTurns, getExtensions_succ]
    cases hr : getExtension b with
    | ok _ rest =>
      simp only [getExtensions_succ]
      rw [bind_of_ok hr, bind_of_ok hr]
      exact ih rest
    | error e rest =>
      simp only [getExtensions_succ]
      rw [bind_of_error hr, bind_of_error hr]

theorem attribFields_takes : Takes 4 attribFields :=
  Takes.int.bind fun _ => Takes.int64.optional.bind fun _ => Takes.int.optional.bind fun _ =>
    Takes.int.optional.bind fun _ => Takes.int.optional.bind fun _ =>
      Takes.int.optional.bind fun _ => Takes.int.optional.bind fun _ => .pure _

theorem extensionCount_takes (flags : UInt32) : Takes 0 (extensionCount flags) :=
  Takes.ite ((Takes.int.bind fun _ => .pure _).mono (zero_le _)) (.pure _)

theorem getExtension_takes : Takes 8 getExtension :=
  Takes.string.bind fun _ => Takes.string.bind fun _ => .pure _

theorem getExtensions_takes : Takes 0 (getExtensions count) := by
  induction count with
  | zero => exact .pure ()
  | succ count ih =>
    rw [getExtensions_succ]
    exact (getExtension_takes.bind fun _ => ih).mono (zero_le _)

theorem decodeAttrib_takes : Takes 4 decodeAttrib := by
  rw [decodeAttrib_eq]
  exact attribFields_takes.bind fun _ => (extensionCount_takes _).bind fun _ =>
    (getExtensions_takes _).bind fun _ => .pure _

/-- Every turn but a last one that fails takes the two length fields. -/
theorem extensionTurns_le (b : Bytes) :
    8 * extensionTurns count b ≤ b.length + 8 := by
  induction count generalizing b with
  | zero => exact zero_le _
  | succ count ih =>
    rw [extensionTurns]
    cases hr : getExtension b with
    | ok _ rest =>
      obtain ⟨front, rfl, hfront⟩ := (wp_of_ok hr).mp (getExtension_takes b)
      have hrest := ih rest
      simp only [length_append]
      omega
    | error e rest => exact le_add_left 8 b.length

theorem decodeTurns_le (b : Bytes) : decodeTurns b ≤ b.length := by
  rw [decodeTurns]
  have htakes : Takes 4 loopCount := attribFields_takes.bind fun _ => extensionCount_takes _
  cases hr : loopCount b with
  | ok count rest =>
    obtain ⟨front, rfl, hfront⟩ := (wp_of_ok hr).mp (htakes b)
    have hturns := extensionTurns_le count rest
    simp only [length_append]
    omega
  | error e rest => exact zero_le _

/-- Fields that the flags do not select are zero. -/
structure Attrib.Selected (a : Attrib) : Prop where
  size : hasFlag a.flags Attr.size = false → a.size = 0
  owner : hasFlag a.flags uidgid = false → a.uid = 0 ∧ a.gid = 0
  perm : hasFlag a.flags permissions = false → a.perm = 0
  times : hasFlag a.flags acmodtime = false → a.atime = 0 ∧ a.mtime = 0

instance (a : Attrib) : Decidable a.Selected :=
  decidable_of_iff ((hasFlag a.flags Attr.size = false → a.size = 0) ∧
      (hasFlag a.flags uidgid = false → a.uid = 0 ∧ a.gid = 0) ∧
      (hasFlag a.flags permissions = false → a.perm = 0) ∧
      (hasFlag a.flags acmodtime = false → a.atime = 0 ∧ a.mtime = 0))
    ⟨fun h => ⟨h.1, h.2.1, h.2.2.1, h.2.2.2⟩, fun h => ⟨h.size, h.owner, h.perm, h.times⟩⟩

variable {a : Attrib}

theorem attribFields_decodes (h : a.Selected) : Decodes attribFields (encodeAttrib a) a := by
  have hparts : encodeAttrib a = putU32 a.flags ++
      (putIf (hasFlag a.flags Attr.size) (putU64 a.size) ++
      (putIf (hasFlag a.flags uidgid) (putU32 a.uid) ++
      (putIf (hasFlag a.flags uidgid) (putU32 a.gid) ++
      (putIf (hasFlag a.flags permissions) (putU32 a.perm) ++
      (putIf (hasFlag a.flags acmodtime) (putU32 a.atime) ++
      (putIf (hasFlag a.flags acmodtime) (putU32 a.mtime) ++ [])))))) := by
    simp only [encodeAttrib, putIf_append, append_assoc, append_nil]
  rw [hparts]
  refine (Decodes.int _).bind (((Decodes.int64 _).optional h.size).bind ?_)
  refine ((Decodes.int _).optional fun hf => (h.owner hf).1).bind ?_
  refine ((Decodes.int _).optional fun hf => (h.owner hf).2).bind ?_
  refine ((Decodes.int _).optional h.perm).bind ?_
  refine ((Decodes.int _).optional fun hf => (h.times hf).1).bind ?_
  exact ((Decodes.int _).optional fun hf => (h.times hf).2).bind (Decodes.pure a)

/-- Behind the fields of an extended attribute the reader takes a count, which nobody wrote. -/
theorem decodeAttrib_extended (h : a.Selected)
    (hext : hasFlag a.flags extended = true) (rest : Bytes) :
    decodeAttrib (encodeAttrib a ++ rest) ≠ .ok a rest := by
  intro hok
  rw [decodeAttrib_eq, bind_of_ok (attribFields_decodes h rest)] at hok
  have htakes : Takes 4 (extensionCount a.flags >>= fun count =>
      getExtensions count >>= fun _ => (pure a : Get Attrib)) := by
    rw [extensionCount, if_pos hext]
    exact (Takes.int.bind fun _ => .pure _).bind fun _ =>
      (getExtensions_takes _).bind fun _ => .pure _
  obtain ⟨front, hfront, hlen⟩ := (wp_of_ok hok).mp (htakes rest)
  have hcut := congrArg length hfront
  rw [length_append] at hcut
  omega

theorem decodeAttrib_decodes (h : a.Selected)
    (hext : hasFlag a.flags extended = false) : Decodes decodeAttrib (encodeAttrib a) a := by
  intro rest
  rw [decodeAttrib_eq, bind_of_ok (attribFields_decodes h rest), extensionCount, if_neg]
  · rfl
  · rw [hext]
    decide

/-- **Attributes in messages**: what was encoded is decoded, with what follows it left alone,
exactly when the flags do not announce extensions. Decoding anything at all takes a prefix or is
`fatal`, in at most as many turns as there are bytes. -/
theorem attrib_codec (a : Attrib) (h : a.Selected) (rest : Bytes) :
    (decodeAttrib (encodeAttrib a ++ rest) = .ok a rest ∧
      ∀ b, wp decodeAttrib (fun _ b' => b' <:+ b) (fun e _ => ∃ msg, e = .fatal msg []) b ∧
        decodeTurns b ≤ b.length) ↔
      hasFlag a.flags extended = false := by
  constructor
  · intro hcodec
    cases hext : hasFlag a.flags extended with
    | false => rfl
    | true => exact absurd hcodec.1 (decodeAttrib_extended h hext rest)
  · intro hext
    refine ⟨decodeAttrib_decodes h hext rest, fun b => ⟨?_, decodeTurns_le b⟩⟩
    refine wp_imp (decodeAttrib_takes b) fun _ b' hb => ?_
    obtain ⟨front, hfront, -⟩ := hb
    exact ⟨front, hfront.symm⟩

theorem attrib_codec_file :
    let a : Attrib := { flags := Attr.size ||| permissions, size := 5, perm := 0o100644 }
    a.Selected ∧ hasFlag a.flags extended = false ∧
      decodeAttrib (encodeAttrib a ++ [1, 2]) = .ok a [1, 2] := by
  intro a
  have hselected : a.Selected := by decide
  exact ⟨hselected, by decide, ((attrib_codec a hselected [1, 2]).mpr (by decide)).1⟩

/-- The flags word of an extended attribute is written, but no count: the two bytes that follow
are too short for one. -/
theorem extended_attrib_lost :
    let a : Attrib := { flags := extended }
    a.Selected ∧ decodeAttrib (encodeAttrib a ++ [1, 2]) =
      .error (.fatal "buffer_get_int: buffer error" []) [1, 2] :=
  ⟨by decide, rfl⟩

/-! ## §3 Attributes of files -/

/-- The seconds are multiplied without overflow. -/
theorem ticks_toInt (t : UInt32) :
    (t.toInt32.toInt64 * 10000000).toInt = t.toInt32.toInt * 10000000 := by
  have hlow := t.toInt32.le_toInt
  have hhigh := t.toInt32.toInt_lt
  rw [Int64.toInt_mul, Int32.toInt_toInt64]
  exact Int.bmod_eq_of_le (by show _ ≤ t.toInt32.toInt * 10000000; omega)
    (by show t.toInt32.toInt * 10000000 < _; omega)

/-- A time survives: as a signed number of seconds it is far from the limits of 64 bits. -/
theorem fileTimeToTimet_timetToFileTime (t : UInt32) : fileTimeToTimet (timetToFileTime t) = t := by
  have hlow := t.toInt32.le_toInt
  have hhigh := t.toInt32.toInt_lt
  have hdiv : t.toInt32.toInt64 * 10000000 / 10000000 = t.toInt32.toInt64 := by
    apply Int64.toInt_inj.mp
    rw [Int64.toInt_div, ticks_toInt, Int32.toInt_toInt64]
    have hcancel : (t.toInt32.toInt * 10000000).tdiv (10000000 : Int64).toInt =
        t.toInt32.toInt := Int.mul_tdiv_cancel _ (by decide)
    rw [hcancel]
    exact Int.bmod_eq_of_le (by omega) (by omega)
  have hsame : t.toInt32.toInt64.toUInt64.toUInt32 = t := by
    apply UInt32.toBitVec_inj.mp
    show t.toInt32.toInt64.toBitVec.setWidth 32 = t.toBitVec
    rw [← BitVec.signExtend_eq_setWidth_of_le _ (by decide)]
    exact congrArg Int32.toBitVec (Int32.toInt32_toInt64 t.toInt32)
  rw [fileTimeToTimet, timetToFileTime, Int64.toInt64_toUInt64, Int64.add_sub_cancel, hdiv, hsame]

/-- The write bits of `perm` -/
abbrev Mode.write : UInt32 := 0o222

theorem toPOSIXFilePerm_write (wPerm : UInt32) :
    hasFlag (toPOSIXFilePerm wPerm) write = !hasFlag wPerm readonly := by
  unfold toPOSIXFilePerm
  cases hasFlag wPerm readonly <;>
    cases hasFlag wPerm directory <;> decide

theorem toPOSIXFilePerm_ifdir (wPerm : UInt32) :
    hasFlag (toPOSIXFilePerm wPerm) ifdir = hasFlag wPerm directory := by
  unfold toPOSIXFilePerm
  cases hasFlag wPerm readonly <;>
    cases hasFlag wPerm directory <;> decide

theorem toWindowsFilePerm_readonly (pPerm : UInt32) :
    hasFlag (toWindowsFilePerm pPerm) readonly = !hasFlag pPerm write := by
  unfold toWindowsFilePerm
  cases hasFlag pPerm write <;> cases hasFlag pPerm ifdir <;> decide

theorem toWindowsFilePerm_directory (pPerm : UInt32) :
    hasFlag (toWindowsFilePerm pPerm) directory = hasFlag pPerm ifdir := by
  unfold toWindowsFilePerm
  cases hasFlag pPerm write <;> cases hasFlag pPerm ifdir <;> decide

/-- What is asked for is what is read back: size, times, whether the file can be written, and
whether it is a directory. -/
structure Survives (a b : Attrib) : Prop where
  size : b.size = a.size
  atime : b.atime = a.atime
  mtime : b.mtime = a.mtime
  write : hasFlag b.perm Mode.write = hasFlag a.perm Mode.write
  directory : hasFlag b.perm Mode.ifdir = hasFlag a.perm Mode.ifdir

/-- **Attributes of files**: a request with a size, permissions and times is read back as it was
exactly when its times are equal and its permissions agree with the bits of the flags word that
are taken for them. -/
theorem attrib_stat_roundTrip (a : Attrib) (hsize : hasFlag a.flags Attr.size = true)
    (hperm : hasFlag a.flags permissions = true) (htimes : hasFlag a.flags acmodtime = true) :
    Survives a (statToAttrib (attribToStat a)) ↔
      a.mtime = a.atime ∧ hasFlag a.perm write = hasFlag a.flags write ∧
        hasFlag a.perm ifdir = hasFlag a.flags ifdir := by
  have htime : (statToAttrib (attribToStat a)).atime = a.atime := by
    simp only [statToAttrib, attribToStat, htimes, if_true, fileTimeToTimet_timetToFileTime]
  have hsame : (statToAttrib (attribToStat a)).mtime = (statToAttrib (attribToStat a)).atime := rfl
  have hread : (statToAttrib (attribToStat a)).perm = toPOSIXFilePerm
      (toWindowsFilePerm a.flags) := by
    simp only [statToAttrib, attribToStat, hperm, if_true]
  constructor
  · intro h
    refine ⟨h.mtime.symm.trans (hsame.trans htime), ?_, ?_⟩
    · rw [← h.write, hread, toPOSIXFilePerm_write, toWindowsFilePerm_readonly, Bool.not_not]
    · rw [← h.directory, hread, toPOSIXFilePerm_ifdir, toWindowsFilePerm_directory]
  · intro ⟨hmtime, hwrite, hdir⟩
    refine ⟨?_, htime, (hsame.trans htime).trans hmtime.symm, ?_, ?_⟩
    · simp only [statToAttrib, attribToStat, hsize, if_true]
    · rw [hread, toPOSIXFilePerm_write, toWindowsFilePerm_readonly, Bool.not_not, hwrite]
    · rw [hread, toPOSIXFilePerm_ifdir, toWindowsFilePerm_directory, hdir]

theorem attrib_stat_roundTrip_readonly :
    let a : Attrib :=
      { flags := Attr.size ||| permissions ||| acmodtime, size := 5, perm := 0o100444,
        atime := 7, mtime := 7 }
    Survives a (statToAttrib (attribToStat a)) :=
  (attrib_stat_roundTrip _ (by decide) (by decide) (by decide)).mpr (by decide)

/-- A file that can be written, modified a second after it was read: it comes back read-only, with
one time for both. -/
theorem attrib_stat_lost :
    let a : Attrib :=
      { flags := Attr.size ||| permissions ||| acmodtime, size := 5, perm := 0o100644,
        atime := 7, mtime := 8 }
    statToAttrib (attribToStat a) = { a with perm := 0o100444, mtime := 7 } := by
  decide

end Shiesh.Sftp
