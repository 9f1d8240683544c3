import Shiesh.Sftp.Server

/-!
# Requests of an SFTP Client

The requests that have an id, as they stand in a message, and how the handlers read them back.
Behind the fields of a request there may be more bytes; for SSH2_FXP_EXTENDED there usually are.
-/

namespace Shiesh.Sftp

open Shiesh.Lib Shiesh.Channels List

/-! ## Requests -/

/-- Attributes as a client sends them: those of `Attrib`, and pairs of strings. -/
structure ClientAttrib where
  attrib : Attrib
  extensions : List (Bytes × Bytes)

def encodeExtension (e : Bytes × Bytes) : Bytes := putString e.1 ++ putString e.2

def ClientAttrib.encode (a : ClientAttrib) : Bytes :=
  encodeAttrib a.attrib ++ putIf (hasFlag a.attrib.flags Attr.extended)
    (putU32 (UInt32.ofNat a.extensions.length) ++ a.extensions.flatMap encodeExtension)

inductive Request where
  | open' (name : Bytes) (pflags : UInt32) (a : ClientAttrib)
  | close (handle : Bytes)
  | read (handle : Bytes) (off : UInt64) (len : UInt32)
  | write (handle : Bytes) (off : UInt64) (data : Bytes)
  | lstat (name : Bytes)
  | fstat (handle : Bytes)
  | setstat (name : Bytes) (a : ClientAttrib)
  | fsetstat (handle : Bytes) (a : ClientAttrib)
  | opendir (name : Bytes)
  | readdir (handle : Bytes)
  | remove (name : Bytes)
  | mkdir (name : Bytes) (a : ClientAttrib)
  | rmdir (name : Bytes)
  | realpath (name : Bytes)
  | stat (name : Bytes)
  | rename (oldName newName : Bytes)
  | readlink (name : Bytes)
  | symlink (oldName newName : Bytes)
  | extended (request : Bytes)

namespace Request

def type : Request → UInt8
  | open' .. => Fxp.open'
  | close .. => Fxp.close
  | read .. => Fxp.read
  | write .. => Fxp.write
  | lstat .. => Fxp.lstat
  | fstat .. => Fxp.fstat
  | setstat .. => Fxp.setstat
  | fsetstat .. => Fxp.fsetstat
  | opendir .. => Fxp.opendir
  | readdir .. => Fxp.readdir
  | remove .. => Fxp.remove
  | mkdir .. => Fxp.mkdir
  | rmdir .. => Fxp.rmdir
  | realpath .. => Fxp.realpath
  | stat .. => Fxp.stat
  | rename .. => Fxp.rename
  | readlink .. => Fxp.readlink
  | symlink .. => Fxp.symlink
  | extended .. => Fxp.extended

/-- The fields behind the id, in their order -/
def fields : Request → Bytes
  | open' name pflags a => putString name ++ (putU32 pflags ++ a.encode)
  | read handle off len => putString handle ++ (putU64 off ++ putU32 len)
  | write handle off data => putString handle ++ (putU64 off ++ putString data)
  | setstat name a | mkdir name a => putString name ++ a.encode
  | fsetstat handle a => putString handle ++ a.encode
  | rename oldName newName | symlink oldName newName => putString oldName ++ putString newName
  | close b | lstat b | fstat b | opendir b | readdir b | remove b | rmdir b | realpath b | stat b
  | readlink b | extended b => putString b

/-- The message of a request, with what stands behind it -/
def message (r : Request) (id : UInt32) (rest : Bytes) : Bytes :=
  [r.type] ++ (putU32 id ++ (r.fields ++ rest))

end Request

/-! ## Reading -/

/-- The state with something else in `iqueue` -/
def SFTP.withIqueue {ω : Type} (s : SFTP ω) (b : Bytes) : SFTP ω := { s with iqueue := b }

section Reading

variable {ω α : Type} {s : SFTP ω} {rest : Bytes} {E : SftpError → SFTP ω → Prop}

variable {b : Bytes} {v : UInt64} (es : List (Bytes × Bytes))

theorem wp_onIqueue {g : Get α} {Q : α → SFTP ω → Prop} :
    wp (onIqueue g) Q E (s.withIqueue b) ↔ wp g (fun a b' => Q a (s.withIqueue b'))
      (fun e b' => E (.halt e) (s.withIqueue b')) b := by
  rw [onIqueue, wp_zoomWith]
  rfl

theorem wp_getInt {v : UInt32} {Q : UInt32 → SFTP ω → Prop} :
    wp getInt Q E (s.withIqueue (putU32 v ++ rest)) ↔ Q v (s.withIqueue rest) := by
  rw [getInt, wp_onIqueue, wp_bufferGetInt]

theorem wp_getType {c : UInt8} {Q : UInt8 → SFTP ω → Prop} :
    wp (onIqueue bufferGetChar) Q E (s.withIqueue ([c] ++ rest)) ↔ Q c (s.withIqueue rest) := by
  have hone : [c].length = 1 := length_singleton
  rw [wp_onIqueue, bufferGetChar, wp_bind, wp_bufferGetOr _ hone, wp_pure, headD_cons]

theorem wp_bufferGetInt64 {Q : UInt64 → Bytes → Prop} {E : Halt → Bytes → Prop} :
    wp bufferGetInt64 Q E (putU64 v ++ rest) ↔ Q v rest := by
  have hv : v.toNat % 256 ^ 8 = v.toNat := Nat.mod_eq_of_lt v.toNat_lt
  rw [bufferGetInt64, wp_bind, wp_bufferGetOr _ (putU64_length v), wp_pure, putU64, beNat_beBytes,
    hv, UInt64.ofNat_toNat]

theorem wp_getInt64 {Q : UInt64 → SFTP ω → Prop} :
    wp getInt64 Q E (s.withIqueue (putU64 v ++ rest)) ↔ Q v (s.withIqueue rest) := by
  rw [getInt64, wp_onIqueue, wp_bufferGetInt64]

theorem wp_getString {Q : Bytes → SFTP ω → Prop} (hlen : b.length ≤ 256 * 1024) :
    wp getString Q E (s.withIqueue (putString b ++ rest)) ↔ Q b (s.withIqueue rest) := by
  rw [getString, wp_onIqueue, wp_bufferGetString hlen]

/-! ### What has been read -/

theorem getInt_takes (s : SFTP ω) :
    wp getInt (fun v s' => ∃ rest, s.iqueue = putU32 v ++ rest ∧ s' = s.withIqueue rest)
      (fun _ s' => ∃ rest, s' = s.withIqueue rest) s := by
  rw [getInt, onIqueue, wp_zoomWith]
  exact wp_mono (bufferGetInt_takes s.iqueue) (fun _ rest h => ⟨rest, h, rfl⟩)
    fun _ rest _ => ⟨rest, rfl⟩

theorem getType_takes (s : SFTP ω) :
    wp (onIqueue bufferGetChar)
      (fun c s' => ∃ rest, s.iqueue = [c] ++ rest ∧ s' = s.withIqueue rest)
      (fun _ s' => ∃ rest, s' = s.withIqueue rest) s := by
  rw [onIqueue, wp_zoomWith, bufferGetChar, wp_bind]
  refine wp_mono (bufferGetOr_takes _ 1 s.iqueue) (fun front rest h => ?_)
    fun _ rest _ => ⟨rest, rfl⟩
  obtain ⟨c, rfl⟩ := length_eq_one_iff.mp h.1
  rw [wp_pure]
  exact ⟨rest, h.2, rfl⟩

theorem getString_takes (s : SFTP ω) :
    wp getString (fun str s' => str.length ≤ 256 * 1024 ∧
      ∃ rest, s.iqueue = putString str ++ rest ∧ s' = s.withIqueue rest)
      (fun _ s' => ∃ rest, s' = s.withIqueue rest) s := by
  rw [getString, onIqueue, wp_zoomWith]
  exact wp_mono (bufferGetString_takes s.iqueue) (fun _ rest h => ⟨h.1, rest, h.2, rfl⟩)
    fun _ rest _ => ⟨rest, rfl⟩

/-! ### Attributes -/

/-- What is there only with its flag is read only with it. -/
theorem getIf_reads {g : Get α} (hg : Reads g b) (present : Bool) (default : α) :
    Reads (getIf present default g) (putIf present b) := by
  cases present with
  | true => exact hg
  | false => exact .pure default

theorem getExtensions_reads
    (hlen : (es.flatMap encodeExtension).length ≤ 256 * 1024) :
    Reads (getExtensions es.length) (es.flatMap encodeExtension) := by
  induction es with
  | nil => exact Reads.pure ()
  | cons e es ih =>
    simp only [flatMap_cons, length_append, encodeExtension, putString,
      putU32_length] at hlen
    rw [flatMap_cons, encodeExtension, append_assoc]
    refine (Reads.string (by omega)).bind fun _ => (Reads.string (by omega)).bind fun _ => ?_
    exact ih (by omega)

theorem extensions_length :
    es.length ≤ (es.flatMap encodeExtension).length := by
  induction es with
  | nil => exact Nat.le_refl 0
  | cons e es ih =>
    simp only [flatMap_cons, length_append, encodeExtension, putString, putU32_length,
      length_cons]
    omega

/-- The count is an `int`, but there is no room in a message for so many. -/
theorem extensions_count
    (hlen : (es.flatMap encodeExtension).length ≤ 256 * 1024) :
    (UInt32.ofNat es.length).toInt32.toInt.toNat = es.length := by
  have hle := extensions_length es
  have hlt : es.length < 2 ^ 31 := by omega
  show (Int32.ofNat es.length).toInt.toNat = es.length
  rw [Int32.toInt_ofNat_of_lt hlt, Int.toNat_natCast]

theorem decodeAttrib_reads (a : ClientAttrib) (hlen : a.encode.length ≤ 256 * 1024) :
    Reads decodeAttrib a.encode := by
  rw [ClientAttrib.encode, length_append] at hlen
  rw [decodeAttrib, ClientAttrib.encode, encodeAttrib]
  simp only [append_assoc, putIf_append _ (putU32 a.attrib.uid),
    putIf_append _ (putU32 a.attrib.atime)]
  apply Reads.int_bind
  have hint : ∀ (v : UInt32) (present : Bool) (default : UInt32),
      Reads (getIf present default bufferGetInt) (putIf present (putU32 v)) :=
    fun v => getIf_reads (.int v)
  refine (getIf_reads (fun _ => wp_bufferGetInt64.mpr rfl) _ _).bind fun _ => ?_
  refine (hint _ _ _).bind fun _ => (hint _ _ _).bind fun _ => ?_
  refine (hint _ _ _).bind fun _ => ?_
  refine (hint _ _ _).bind fun _ => (hint _ _ _).bind fun _ => ?_
  cases hext : hasFlag a.attrib.flags Attr.extended with
  | false => exact .pure _
  | true =>
    have hes : (a.extensions.flatMap encodeExtension).length ≤ 256 * 1024 := by
      rw [hext, putIf, if_pos rfl, length_append] at hlen
      omega
    have hread : Reads (getExtensions (UInt32.ofNat a.extensions.length).toInt32.toInt.toNat)
        (a.extensions.flatMap encodeExtension) := by
      rw [extensions_count _ hes]
      exact getExtensions_reads _ hes
    apply Reads.int_bind
    rw [← append_nil (a.extensions.flatMap encodeExtension)]
    exact hread.bind fun _ => .pure _

/-- Attributes are read, whatever they say. -/
theorem getAttrib_reads {a : ClientAttrib} {Q : Attrib → SFTP ω → Prop}
    (hlen : a.encode.length ≤ 256 * 1024) (hQ : ∀ decoded, Q decoded (s.withIqueue rest)) :
    wp getAttrib Q E (s.withIqueue (a.encode ++ rest)) := by
  rw [getAttrib, wp_onIqueue]
  refine wp_mono_total (decodeAttrib_reads a hlen rest) fun decoded b hb => ?_
  rw [hb]
  exact hQ decoded

end Reading

end Shiesh.Sftp
