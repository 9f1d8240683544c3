import Shiesh.Sftp.HandleTable

/-!
# Handle Strings

A client gets the number of its handle in decimal, with the NUL at the end, and sends it back.
`handle_to_string` writes one string for each number. `handle_from_string` reads with
`istringstream`, which takes much more than that: blanks in front, a sign, zeros in front, anything
behind the digits. When nothing can be read, the number is what happens to stand in an
uninitialized variable.

- `extractInt_eq_some`: what `istringstream` reads, as a grammar
- `handleFromString_iff`: which strings are taken for which handles
- `handle_strings`: when these are the right ones
-/

namespace Shiesh.Sftp

open Shiesh.Lib List Nat

variable {ω : Type}

/-! ## Numerals -/

inductive Sign where
  | none
  | plus
  | minus
  deriving DecidableEq, Repr

def Sign.text : Sign → Bytes
  | none => []
  | plus => [43]
  | minus => [45]

def Sign.apply : Sign → Int → Int
  | minus, n => -n
  | _, n => n

/-- The number that digits spell -/
def digitsValue (digits : Bytes) : Int := digits.foldl (fun n d => 10 * n + (d - 48).toNat) 0

/-- The text begins with the number `n`, behind blanks and an optional sign. -/
def BeginsWith (text : Bytes) (n : Int) : Prop :=
  ∃ (blanks : Bytes) (sign : Sign) (digits rest : Bytes),
    text = blanks ++ (sign.text ++ (digits ++ rest)) ∧
    (∀ c ∈ blanks, isSpace c = true) ∧
    digits ≠ [] ∧ (∀ c ∈ digits, isDigit c = true) ∧
    (∀ c ∈ rest.head?, isDigit c = false) ∧
    n = sign.apply (digitsValue digits) ∧ -2147483648 ≤ n ∧ n ≤ 2147483647

variable {c : UInt8} {b digits rest : Bytes} {s : SFTP ω} {os : Win32 ω} {n : Int}

theorem isDigit_bounds (h : isDigit c = true) : 48 ≤ c.toNat ∧ c.toNat ≤ 57 := by
  rw [isDigit, Bool.and_eq_true, decide_eq_true_iff, decide_eq_true_iff, UInt8.le_iff_toNat_le,
    UInt8.le_iff_toNat_le] at h
  exact h

theorem not_isSpace_of_isDigit (h : isDigit c = true) : isSpace c = false := by
  have hc := isDigit_bounds h
  rw [isSpace, Bool.or_eq_false_iff, Bool.and_eq_false_iff, decide_eq_false_iff_not,
    decide_eq_false_iff_not, decide_eq_false_iff_not, UInt8.le_iff_toNat_le,
    UInt8.le_iff_toNat_le]
  refine ⟨.inr (by show ¬c.toNat ≤ 13; omega), fun heq => ?_⟩
  rw [heq] at hc
  exact absurd hc (by decide)

/-- Where the blanks end, `istringstream` looks for a sign and digits. -/
theorem dropWhile_blanks {blanks text : Bytes} (hblanks : ∀ c ∈ blanks, isSpace c = true)
    (htext : ∀ c ∈ text.head?, isSpace c = false) : (blanks ++ text).dropWhile isSpace = text := by
  rw [dropWhile_append_of_pos hblanks]
  cases text with
  | nil => rfl
  | cons c text =>
    rw [dropWhile_cons_of_neg]
    rw [htext c rfl]
    exact Bool.false_ne_true

theorem takeWhile_digits (hdigits : ∀ c ∈ digits, isDigit c = true)
    (hrest : ∀ c ∈ rest.head?, isDigit c = false) :
    (digits ++ rest).takeWhile isDigit = digits := by
  rw [takeWhile_append_of_pos hdigits]
  cases rest with
  | nil => exact append_nil digits
  | cons c rest =>
    rw [takeWhile_cons_of_neg, append_nil]
    rw [hrest c rfl]
    exact Bool.false_ne_true

/-- The sign and what stands behind it -/
def splitSign : Bytes → Sign × Bytes
  | 45 :: rest => (.minus, rest)
  | 43 :: rest => (.plus, rest)
  | b => (.none, b)

theorem extractInt_eq (b : Bytes) :
    extractInt b =
      let split := splitSign (b.dropWhile isSpace)
      let digits := split.2.takeWhile isDigit
      let n := split.1.apply (digitsValue digits)
      if digits = [] ∨ n < -2147483648 ∨ 2147483647 < n then none else some n := by
  unfold extractInt
  generalize b.dropWhile isSpace = text
  fun_cases splitSign text with
  | case1 rest => rfl
  | case2 rest => rfl
  | case3 _ hminus hplus =>
    simp only
    rfl

theorem splitSign_text (sign : Sign) (hne : digits ≠ [])
    (hdigits : ∀ c ∈ digits, isDigit c = true) :
    splitSign (sign.text ++ (digits ++ rest)) = (sign, digits ++ rest) := by
  cases sign with
  | minus => rfl
  | plus => rfl
  | none =>
    cases digits with
    | nil => exact absurd rfl hne
    | cons d ds =>
      have hd := isDigit_bounds (hdigits d mem_cons_self)
      simp only [Sign.text, nil_append, cons_append]
      unfold splitSign
      split
      case h_1 heq =>
        cases heq
        exact absurd hd (by decide)
      case h_2 heq =>
        cases heq
        exact absurd hd (by decide)
      case h_3 => rfl

theorem splitSign_append (b : Bytes) : (splitSign b).1.text ++ (splitSign b).2 = b := by
  unfold splitSign
  split
  · rfl
  · rfl
  · rfl

/-- **What `istringstream` reads**: the number that the text begins with, if there is one. -/
theorem extractInt_eq_some (text : Bytes) (n : Int) :
    extractInt text = some n ↔ BeginsWith text n := by
  rw [extractInt_eq]
  constructor
  · intro h
    simp only at h
    split at h
    case isTrue => cases h
    case isFalse hread =>
      cases h
      rw [not_or, not_or, Int.not_lt, Int.not_lt] at hread
      refine ⟨text.takeWhile isSpace, (splitSign (text.dropWhile isSpace)).1,
        (splitSign (text.dropWhile isSpace)).2.takeWhile isDigit,
        (splitSign (text.dropWhile isSpace)).2.dropWhile isDigit, ?_, ?_, hread.1, ?_, ?_, rfl,
        hread.2.1, hread.2.2⟩
      · rw [takeWhile_append_dropWhile, splitSign_append, takeWhile_append_dropWhile]
      · exact fun c hc => mem_takeWhile_imp hc
      · exact fun c hc => mem_takeWhile_imp hc
      · intro c hc
        have hstop := head?_dropWhile_not isDigit (splitSign (text.dropWhile isSpace)).2
        rw [Option.mem_def.mp hc] at hstop
        exact hstop
  · intro ⟨blanks, sign, digits, rest, htext, hblanks, hne, hdigits, hrest, hn, hlow, hhigh⟩
    have hfirst : ∀ c ∈ (sign.text ++ (digits ++ rest)).head?, isSpace c = false := by
      intro c hc
      cases sign with
      | minus =>
        cases hc
        rfl
      | plus =>
        cases hc
        rfl
      | none =>
        obtain ⟨d, ds, rfl⟩ := exists_cons_of_ne_nil hne
        cases hc
        exact not_isSpace_of_isDigit (hdigits _ mem_cons_self)
    simp only [htext, dropWhile_blanks hblanks hfirst, splitSign_text sign hne hdigits,
      takeWhile_digits hdigits hrest]
    rw [← hn, if_neg]
    rw [not_or, not_or, Int.not_lt, Int.not_lt]
    exact ⟨hne, hlow, hhigh⟩

/-! ## The strings of handle_to_string -/

/-- A digit as a byte -/
def digitByte (c : Char) : UInt8 := UInt8.ofNat c.toNat

theorem digitByte_toNat {c : Char} (h : c.isDigit = true) :
    (digitByte c).toNat = c.toNat ∧ 48 ≤ c.toNat ∧ c.toNat ≤ 57 := by
  have hc : 48 ≤ c.toNat ∧ c.toNat ≤ 57 := by
    rw [Char.isDigit, Bool.and_eq_true, decide_eq_true_iff, decide_eq_true_iff] at h
    exact ⟨UInt32.le_iff_toNat_le.mp h.1, UInt32.le_iff_toNat_le.mp h.2⟩
  refine ⟨?_, hc⟩
  rw [digitByte, UInt8.toNat_ofNat']
  omega

theorem isDigit_digitByte {c : Char} (h : c.isDigit = true) : isDigit (digitByte c) = true := by
  obtain ⟨heq, hlow, hhigh⟩ := digitByte_toNat h
  rw [isDigit, Bool.and_eq_true, decide_eq_true_iff, decide_eq_true_iff, UInt8.le_iff_toNat_le,
    UInt8.le_iff_toNat_le, heq]
  exact ⟨hlow, hhigh⟩

theorem digitsValue_digitByte {cs : List Char} (h : ∀ c ∈ cs, c.isDigit = true) :
    digitsValue (cs.map digitByte) = ofDigitChars 10 cs 0 := by
  have hfold : ∀ n : Nat, (cs.map digitByte).foldl (fun n d => 10 * n + ((d - 48).toNat : Int)) n =
      ofDigitChars 10 cs n := by
    induction cs with
    | nil => exact fun n => rfl
    | cons c cs ih =>
      intro n
      obtain ⟨heq, hlow, -⟩ := digitByte_toNat (h c mem_cons_self)
      have hd : (digitByte c - 48).toNat = c.toNat - '0'.toNat := by
        rw [UInt8.toNat_sub_of_le _ _ (by rw [UInt8.le_iff_toNat_le, heq]; exact hlow), heq]
        rfl
      simp only [map_cons, foldl_cons, hd]
      have hrest := ih (fun c hc => h c (mem_cons_of_mem _ hc)) (10 * n + (c.toNat - '0'.toNat))
      push_cast at hrest
      exact hrest
  exact hfold 0

theorem digitsValue_toDigits (n : Nat) : digitsValue ((toDigits 10 n).map digitByte) = n := by
  rw [digitsValue_digitByte fun c hc => isDigit_of_mem_toDigits (by decide) (by decide) hc,
    ofDigitChars_ten_toDigits]

/-- What `handle_to_string` has written is read as the number it was made from. -/
theorem handleToString_beginsWith (handle : Int32) :
    BeginsWith (cstr (handleToString handle.toInt)) handle.toInt := by
  have hlow := handle.le_toInt
  have hhigh := handle.toInt_lt
  let sign : Sign := if handle.toInt < 0 then .minus else .none
  let digits := (toDigits 10 handle.toInt.natAbs).map digitByte
  have hdigits : ∀ c ∈ digits, isDigit c = true := by
    intro c hc
    obtain ⟨d, hd, rfl⟩ := mem_map.mp hc
    exact isDigit_digitByte (isDigit_of_mem_toDigits (by decide) (by decide) hd)
  have htext : handleToString handle.toInt = sign.text ++ digits ++ [0] := by
    rw [handleToString, Int32.ofInt_toInt]
    simp only [sign, digits]
    split
    · rfl
    · rfl
  have hnonzero : ∀ c ∈ sign.text ++ digits, c ≠ 0 := by
    intro c hc hzero
    rcases mem_append.mp hc with hc | hc
    · simp only [sign] at hc
      split at hc
      · rw [hzero] at hc
        exact absurd hc (by decide)
      · exact not_mem_nil hc
    · have := isDigit_bounds (hdigits c hc)
      rw [hzero] at this
      exact absurd this (by decide)
  refine ⟨[], sign, digits, [], ?_, fun c hc => absurd hc not_mem_nil, ?_, hdigits,
    fun c hc => absurd hc (Option.not_mem_none c), ?_, by omega, by omega⟩
  · rw [htext, cstr, takeWhile_append_of_pos fun c hc => decide_eq_true (hnonzero c hc),
      append_nil, nil_append]
    exact append_nil _
  · exact fun hnil => toDigits_ne_nil (map_eq_nil_iff.mp hnil)
  · simp only [sign, digits, digitsValue_toDigits]
    split
    · show _ = -(handle.toInt.natAbs : Int)
      omega
    · show _ = (handle.toInt.natAbs : Int)
      omega

theorem handleToString_ne_nil (handle : Int) : handleToString handle ≠ [] := by
  rw [handleToString]
  exact append_ne_nil_of_right_ne_nil _ (cons_ne_nil _ _)

/-! ## Which strings are taken -/

/-- The handle is that of an open file or directory. -/
def SFTP.IsOpen (s : SFTP ω) (handle : Int) : Prop :=
  s.handleIsOk handle .file = true ∨ s.handleIsOk handle .dir = true

instance (s : SFTP ω) (handle : Int) : Decidable (s.IsOpen handle) :=
  inferInstanceAs (Decidable (_ ∨ _))

theorem SFTP.IsOpen.nonneg {handle : Int} (h : s.IsOpen handle) : 0 ≤ handle := by
  rcases h with h | h
  · exact ((handleIsOk_iff s handle (by decide)).mp h).1
  · exact ((handleIsOk_iff s handle (by decide)).mp h).1

/-- What is in the variable that is not set when nothing can be read -/
def leftOver (os : Win32 ω) (s : SFTP ω) : Int := (os.uninitialized s.world).toInt32.toInt

/-- The number in a handle string, as `handle_from_string` takes it -/
def Names (os : Win32 ω) (s : SFTP ω) (b : Bytes) (n : Int) : Prop :=
  BeginsWith (cstr b) n ∨ (∀ m, ¬BeginsWith (cstr b) m) ∧ n = leftOver os s

theorem names_iff (os : Win32 ω) (s : SFTP ω) (b : Bytes) (n : Int) :
    Names os s b n ↔ n = (extractInt (cstr b)).getD (leftOver os s) := by
  simp only [Names, ← extractInt_eq_some]
  cases hread : extractInt (cstr b) with
  | none => simp
  | some m => simp [eq_comm]

theorem Names.unique {m : Int} (hn : Names os s b n) (hm : Names os s b m) : n = m :=
  ((names_iff os s b n).mp hn).trans ((names_iff os s b m).mp hm).symm

/-- It is always an `int`. -/
theorem Names.bounds (h : Names os s b n) : -2 ^ 31 ≤ n ∧ n < 2 ^ 31 := by
  rcases h with ⟨_, _, _, _, -, -, -, -, -, -, hlow, hhigh⟩ | ⟨-, rfl⟩
  · omega
  · exact ⟨Int32.le_toInt _, Int32.toInt_lt _⟩

theorem handleFromString_iff (os : Win32 ω) (s : SFTP ω) (b : Bytes) (hn : 0 ≤ n) :
    handleFromString os b s = .ok n s ↔ b ≠ [] ∧ Names os s b n ∧ s.IsOpen n := by
  rw [names_iff]
  by_cases hb : b = []
  · refine ⟨fun h => ?_, fun h => absurd hb h.1⟩
    rw [handleFromString, if_pos hb] at h
    cases h
    exact absurd hn (by decide)
  · have hrun : handleFromString os b s =
        if s.IsOpen ((extractInt (cstr b)).getD (leftOver os s)) then
          .ok ((extractInt (cstr b)).getD (leftOver os s)) s
        else .error (.noSuchHandle ((extractInt (cstr b)).getD (leftOver os s))) s := by
      have hleft : uninitialized os s = .ok (os.uninitialized s.world) s := rfl
      rw [handleFromString, if_neg hb, bind_of_ok hleft]
      simp only [SFTP.IsOpen, ← Bool.or_eq_true]
      show (if _ then pure _ else throw _ : SftpM ω Int) s = _
      split
      case isTrue h => exact (if_pos h).symm
      case isFalse h => exact (if_neg h).symm
    rw [hrun]
    refine ⟨fun h => ?_, fun h => ?_⟩
    · split at h
      case isTrue hopen =>
        cases h
        exact ⟨hb, rfl, hopen⟩
      case isFalse => cases h
    · rw [← h.2.1, if_pos h.2.2]

/-- `handle_from_string` gives the index of an open handle for the string that
`handle_to_string` makes of it, and no index for any other string. -/
def TakesOnlyItsOwn (os : Win32 ω) (s : SFTP ω) (b : Bytes) : Prop :=
  ∀ handle : Int32, 0 ≤ handle.toInt →
    (handleFromString os b s = .ok handle.toInt s ↔
      s.IsOpen handle.toInt ∧ b = handleToString handle.toInt)

/-- **Handle strings**: a string is treated as it should be exactly when it is empty, or one that
`handle_to_string` can make, or the number it begins with (for a string without a number, the one
that is left over in memory) is not that of an open handle. -/
theorem handle_strings (os : Win32 ω) (s : SFTP ω) (b : Bytes) :
    TakesOnlyItsOwn os s b ↔
      b = [] ∨ (∃ handle : Int32, b = handleToString handle.toInt) ∨
        ∀ n, Names os s b n → ¬s.IsOpen n := by
  constructor
  · intro h
    by_cases hb : b = []
    · exact .inl hb
    refine .inr (or_iff_not_imp_right.mpr fun hopen => ?_)
    push Not at hopen
    obtain ⟨n, hnames, hn⟩ := hopen
    have hint : (Int32.ofInt n).toInt = n := Int32.toInt_ofInt_of_le hnames.bounds.1 hnames.bounds.2
    have hown := (h (.ofInt n) (by rw [hint]; exact hn.nonneg)).mp
      (by rw [hint]; exact (handleFromString_iff os s b hn.nonneg).mpr ⟨hb, hnames, hn⟩)
    exact ⟨_, hown.2⟩
  · intro h handle hpos
    rw [handleFromString_iff os s b hpos]
    have hown : b = handleToString handle.toInt → Names os s b handle.toInt := by
      intro hb
      rw [hb]
      exact .inl (handleToString_beginsWith handle)
    refine ⟨fun ⟨hb, hnames, hopen⟩ => ⟨hopen, ?_⟩, fun ⟨hopen, hb⟩ => ?_⟩
    · rcases h with h | ⟨handle', rfl⟩ | h
      · exact absurd h hb
      · rw [hnames.unique (.inl (handleToString_beginsWith handle'))]
      · exact absurd hopen (h _ hnames)
    · exact ⟨hb ▸ handleToString_ne_nil _, hown hb, hopen⟩

/-- One file is open, under the number 0. -/
def oneFile : SFTP Unit where
  version := 3
  handles := [{ use := .file, dirp := 0, fileHandle := 8, path := someHome }]
  world := ()

/-- Blanks, a sign and zeros in front of the number, text behind it, and no NUL at the end -/
theorem handle_string_taken :
    handleFromString (brokenSystem 5) (ascii " +00, please") oneFile = .ok 0 oneFile ∧
      handleToString 0 = ascii "0" ++ [0] :=
  ⟨rfl, by decide⟩

end Shiesh.Sftp
