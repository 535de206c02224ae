import Mathlib.Data.Nat.Digits.Lemmas
import TyanoCore.Md5
import TyanoCore.Sha1

/-!
# The test of a password

Passwords are stored as they are or as the text of a digest.  The test of a password transforms it
as the stored one was transformed, and compares the texts in upper case.
-/

namespace TyanoCore.Encryption

open BlockHash Bytes

/-- The setting `ENCRYPTION`. -/
inductive EncryptionType where
  | ENCRYPTION_PLAIN
  | ENCRYPTION_MD5
  | ENCRYPTION_SHA1

/-- A character is a signed byte. -/
def upchar (character : UInt8) : UInt8 :=
  if (97 ≤ character ∧ character ≤ 122) ∨ 224 ≤ character then character - 32 else character

def tolower (character : UInt8) : UInt8 :=
  if 65 ≤ character ∧ character ≤ 90 then character + 32 else character

/-! ## The texts of digests -/

def hexDigit (d : ℕ) : UInt8 := if d < 10 then UInt8.ofNat (48 + d) else UInt8.ofNat (55 + d)

/-- A number in the stream, with the flags `hex` and `uppercase`. -/
def hexNumber (n : ℕ) : List UInt8 :=
  if n = 0 then [48] else (Nat.digits 16 n).reverse.map hexDigit

/-- The field of a given width, filled with zeros. -/
def setw (width : ℕ) (text : List UInt8) : List UInt8 :=
  List.replicate (width - text.length) 48 ++ text

/-- The objects that the transformations make, whatever the memory for them holds. -/
structure Stack where
  sha1 : Sha1.SHA1
  m_md5 : Md5.MD5_CTX

def hexStr (width : ℕ) (numbers : List ℕ) : List UInt8 :=
  numbers.flatMap fun n => setw width (hexNumber n)

def cased (upperCase : Bool) (text : List UInt8) : List UInt8 :=
  if upperCase then text else text.map tolower

/-- There is no text when the object has no digest. -/
def transformToSHA1 (stack : Stack) (plainText : List UInt8) (upperCase : Bool) :
    Option (List UInt8) :=
  ((stack.sha1.Reset.Input plainText).Result.2).map fun sha1Hash =>
    cased upperCase (hexStr 8 ([sha1Hash.A, sha1Hash.B, sha1Hash.C, sha1Hash.D, sha1Hash.E].map
      UInt32.toNat))

def transformToMD5 (stack : Stack) (plainText : List UInt8) (upperCase : Bool) : List UInt8 :=
  let m_md5 := Md5.MD5Final (Md5.MD5Update (Md5.MD5Init stack.m_md5 0) plainText)
  cased upperCase (hexStr 2 (m_md5.digest.map UInt8.toNat))

def encrypt (encryption : EncryptionType) (stack : Stack) (str : List UInt8) (upperCase : Bool) :
    Option (List UInt8) :=
  match encryption with
  | .ENCRYPTION_MD5 => some (transformToMD5 stack str upperCase)
  | .ENCRYPTION_SHA1 => transformToSHA1 stack str upperCase
  | .ENCRYPTION_PLAIN => some (if upperCase then str.map upchar else str)

def encryptTest (encryption : EncryptionType) (stack : Stack) (plain hash : List UInt8) :
    Option Bool :=
  (encrypt encryption stack plain true).map fun plain => decide (plain = hash.map upchar)

/-! ## Texts and numbers -/

theorem setw_hexNumber {width : ℕ} (hwidth : 0 < width) (n : ℕ) :
    setw width (hexNumber n) =
      (Nat.digits 16 n ++ List.replicate (width - (Nat.digits 16 n).length) 0).reverse.map
        hexDigit := by
  have hzeros (k : ℕ) : (List.replicate k 0).map hexDigit = List.replicate k 48 :=
    List.map_replicate
  by_cases hn : n = 0
  · obtain ⟨k, rfl⟩ := Nat.exists_eq_add_of_le' hwidth
    rw [hn, hexNumber, if_pos rfl, Nat.digits_zero, List.nil_append, List.reverse_replicate,
      hzeros, setw, List.length_nil, Nat.sub_zero, List.length_singleton, Nat.add_sub_cancel,
      List.replicate_succ']
  · rw [hexNumber, if_neg hn, setw, List.length_map, List.length_reverse, List.reverse_append,
      List.map_append, List.reverse_replicate, hzeros]

theorem length_setw_hexNumber {width n : ℕ} (hwidth : 0 < width) (hn : n < 16 ^ width) :
    (setw width (hexNumber n)).length = width := by
  have hlength : (Nat.digits 16 n).length ≤ width :=
    (Nat.digits_length_le_iff (by decide) n).mpr hn
  rw [setw_hexNumber hwidth, List.length_map, List.length_reverse, List.length_append,
    List.length_replicate]
  omega

/-- The digit that a character stands for. -/
def hexValue (character : UInt8) : ℕ :=
  if character < 58 then character.toNat - 48 else character.toNat - 55

theorem hexValue_hexDigit : ∀ d < 16, hexValue (hexDigit d) = d := by
  decide

theorem upchar_hexDigit : ∀ d < 16,
    upchar (hexDigit d) = hexDigit d ∧ upchar (tolower (hexDigit d)) = hexDigit d := by
  decide

theorem digit_lt {width n : ℕ} :
    ∀ d ∈ (Nat.digits 16 n ++ List.replicate (width - (Nat.digits 16 n).length) 0).reverse,
      d < 16 := by
  intro d hd
  rcases List.mem_append.mp (List.mem_reverse.mp hd) with hd | hd
  · exact Nat.digits_lt_base (by decide) hd
  · rw [List.eq_of_mem_replicate hd]
    decide

/-- The number is read back from its field. -/
theorem setw_hexNumber_injective {width : ℕ} (hwidth : 0 < width) {m n : ℕ}
    (h : setw width (hexNumber m) = setw width (hexNumber n)) : m = n := by
  have hread (k : ℕ) : Nat.ofDigits 16 (((setw width (hexNumber k)).map hexValue).reverse) = k := by
    rw [setw_hexNumber hwidth, List.map_map]
    have hvalues : (Nat.digits 16 k ++
        List.replicate (width - (Nat.digits 16 k).length) 0).reverse.map (hexValue ∘ hexDigit) =
        (Nat.digits 16 k ++ List.replicate (width - (Nat.digits 16 k).length) 0).reverse := by
      conv_rhs => rw [← List.map_id (List.reverse _)]
      exact List.map_congr_left fun d hd => hexValue_hexDigit d (digit_lt d hd)
    rw [hvalues, List.reverse_reverse, Nat.ofDigits_append_replicate_zero, Nat.ofDigits_digits]
  rw [← hread m, h, hread]

theorem hexStr_injective {width : ℕ} (hwidth : 0 < width) {l l' : List ℕ}
    (hl : ∀ n ∈ l, n < 16 ^ width) (hl' : ∀ n ∈ l', n < 16 ^ width)
    (h : hexStr width l = hexStr width l') : l = l' := by
  induction l generalizing l' with
  | nil =>
    cases l' with
    | nil => rfl
    | cons n l' =>
      have hlength := congrArg List.length h
      rw [hexStr, hexStr, List.flatMap_cons, List.length_append,
        length_setw_hexNumber hwidth (hl' n List.mem_cons_self)] at hlength
      have hnil : (List.flatMap (fun n => setw width (hexNumber n)) ([] : List ℕ)).length = 0 := rfl
      omega
  | cons m l ih =>
    cases l' with
    | nil =>
      have hlength := congrArg List.length h
      rw [hexStr, hexStr, List.flatMap_cons, List.length_append,
        length_setw_hexNumber hwidth (hl m List.mem_cons_self)] at hlength
      have hnil : (List.flatMap (fun n => setw width (hexNumber n)) ([] : List ℕ)).length = 0 := rfl
      omega
    | cons n l' =>
      rw [hexStr, hexStr, List.flatMap_cons, List.flatMap_cons] at h
      have hwidths : (setw width (hexNumber m)).length = (setw width (hexNumber n)).length := by
        rw [length_setw_hexNumber hwidth (hl m List.mem_cons_self),
          length_setw_hexNumber hwidth (hl' n List.mem_cons_self)]
      obtain ⟨hhead, htail⟩ := List.append_inj h hwidths
      rw [setw_hexNumber_injective hwidth hhead,
        ih (fun k hk => hl k (List.mem_cons_of_mem m hk))
          (fun k hk => hl' k (List.mem_cons_of_mem n hk)) htail]

/-- The text of a digest is in upper case, and again in upper case when it was in lower case. -/
theorem map_upchar_cased_hexStr {width : ℕ} (hwidth : 0 < width) (upperCase : Bool) (l : List ℕ) :
    (cased upperCase (hexStr width l)).map upchar = hexStr width l := by
  have hfield (n : ℕ) : ((setw width (hexNumber n)).map upchar = setw width (hexNumber n)) ∧
      ((setw width (hexNumber n)).map tolower).map upchar = setw width (hexNumber n) := by
    rw [setw_hexNumber hwidth, List.map_map, List.map_map, List.map_map]
    constructor
    · exact List.map_congr_left fun d hd => (upchar_hexDigit d (digit_lt d hd)).1
    · exact List.map_congr_left fun d hd => (upchar_hexDigit d (digit_lt d hd)).2
  induction l with
  | nil => cases upperCase <;> rfl
  | cons n l ih =>
    cases upperCase with
    | false =>
      have hrest : ((hexStr width l).map tolower).map upchar = hexStr width l := ih
      show ((hexStr width (n :: l)).map tolower).map upchar = _
      rw [hexStr, List.flatMap_cons, List.map_append, List.map_append, (hfield n).2]
      exact congrArg _ hrest
    | true =>
      have hrest : (hexStr width l).map upchar = hexStr width l := ih
      show (hexStr width (n :: l)).map upchar = _
      rw [hexStr, List.flatMap_cons, List.map_append, (hfield n).1]
      exact congrArg _ hrest

/-! ## The digests -/

theorem transformToMD5_eq (stack : Stack) {plainText : List UInt8}
    (hlength : plainText.length < 2 ^ 32) (upperCase : Bool) :
    transformToMD5 stack plainText upperCase =
      cased upperCase (hexStr 2 ((Md5.md5 (Md5.magic 0) plainText).map UInt8.toNat)) := by
  have hstands := (Md5.stands_MD5Init stack.m_md5 0).update hlength
  rw [transformToMD5, hstands.final, List.nil_append]

theorem transformToSHA1_eq (stack : Stack) {plainText : List UInt8}
    (hlength : plainText.length < 2 ^ 32) (upperCase : Bool) :
    transformToSHA1 stack plainText upperCase =
      let H := Sha1.sha1 plainText
      some (cased upperCase (hexStr 8 ([H.A, H.B, H.C, H.D, H.E].map UInt32.toNat))) := by
  have hinput := (Sha1.simulates_Reset stack.sha1).input plainText
  rw [Nat.mod_eq_of_lt hlength, List.take_length] at hinput
  have hfresh : Sha1.Hasher.fresh.input plainText = ⟨plainText, false, false⟩ := by
    rw [Sha1.Hasher.input]
    split_ifs with hnil hopen
    · rw [hnil]
      rfl
    · rfl
    · refine absurd ⟨rfl, rfl, ?_⟩ hopen
      show 8 * (0 + plainText.length) < 2 ^ 64
      omega
  rw [hfresh] at hinput
  have hresult := (hinput.result rfl).1
  rw [transformToSHA1, hresult]
  rfl

/-- What the test of a password compares. -/
def Matches : EncryptionType → List UInt8 → List UInt8 → Prop
  | .ENCRYPTION_PLAIN, plain, password => plain.map upchar = password.map upchar
  | .ENCRYPTION_MD5, plain, password =>
    Md5.md5 (Md5.magic 0) plain = Md5.md5 (Md5.magic 0) password
  | .ENCRYPTION_SHA1, plain, password => Sha1.sha1 plain = Sha1.sha1 password

theorem md5_inj_of_hexStr {m n : List UInt8}
    (h : hexStr 2 (m.map UInt8.toNat) = hexStr 2 (n.map UInt8.toNat)) : m = n := by
  have hlt (l : List UInt8) : ∀ k ∈ l.map UInt8.toNat, k < 16 ^ 2 := by
    intro k hk
    obtain ⟨byte, _, rfl⟩ := List.mem_map.mp hk
    exact byte.toNat_lt
  exact List.map_injective_iff.mpr (fun _ _ => UInt8.toNat_inj.mp)
    (hexStr_injective (by decide) (hlt m) (hlt n) h)

theorem words_inj_of_hexStr {H H' : Sha1.Words}
    (h : hexStr 8 ([H.A, H.B, H.C, H.D, H.E].map UInt32.toNat) =
      hexStr 8 ([H'.A, H'.B, H'.C, H'.D, H'.E].map UInt32.toNat)) : H = H' := by
  have hlt (l : List UInt32) : ∀ k ∈ l.map UInt32.toNat, k < 16 ^ 8 := by
    intro k hk
    obtain ⟨word, _, rfl⟩ := List.mem_map.mp hk
    exact word.toNat_lt
  have hwords := List.map_injective_iff.mpr (fun _ _ => UInt32.toNat_inj.mp)
    (hexStr_injective (by decide) (hlt _) (hlt _) h)
  obtain ⟨A, B, C, D, E⟩ := H
  obtain ⟨A', B', C', D', E'⟩ := H'
  simp only [List.cons.injEq, and_true] at hwords
  simp only [Sha1.Words.mk.injEq]
  exact hwords

/-- **A password passes the test exactly when its digest is that of the password that was stored**,
or, where passwords are stored as they are, when the two differ only in the case of letters. -/
theorem encryptTest_encrypt (encryption : EncryptionType) (stack stack' : Stack)
    (password plain : List UInt8) (hpassword : password.length < 2 ^ 32)
    (hplain : plain.length < 2 ^ 32) :
    ∃ hash verdict, encrypt encryption stack password false = some hash ∧
      encryptTest encryption stack' plain hash = some verdict ∧
      (verdict = true ↔ Matches encryption plain password) := by
  cases encryption with
  | ENCRYPTION_PLAIN =>
    exact ⟨password, decide (plain.map upchar = password.map upchar), rfl, rfl, decide_eq_true_iff⟩
  | ENCRYPTION_MD5 =>
    refine ⟨_, _, rfl, rfl, ?_⟩
    rw [decide_eq_true_iff, transformToMD5_eq stack hpassword, transformToMD5_eq stack' hplain,
      map_upchar_cased_hexStr (by decide)]
    constructor
    · exact md5_inj_of_hexStr
    · intro h
      rw [Matches] at h
      rw [h]
      rfl
  | ENCRYPTION_SHA1 =>
    have hstored := transformToSHA1_eq stack hpassword false
    have htested := transformToSHA1_eq stack' hplain true
    refine ⟨_, _, hstored, congrArg (Option.map _) htested, ?_⟩
    rw [decide_eq_true_iff, map_upchar_cased_hexStr (by decide)]
    constructor
    · exact words_inj_of_hexStr
    · intro h
      rw [Matches] at h
      rw [h]
      rfl

/-- Over a memory of zeros, b is not taken for a under SHA-1, and A is where passwords are stored as they
are. -/
theorem encryptTest_encrypt_letters :
    let stack : Stack := ⟨⟨⟨0, 0, 0, 0, 0⟩, 0, 0, fun _ => 0, 0, false, false⟩,
      ⟨0, 0, ⟨0, 0, 0, 0⟩, fun _ => 0, []⟩⟩
    (∃ hash, encrypt .ENCRYPTION_SHA1 stack [97] false = some hash ∧
      encryptTest .ENCRYPTION_SHA1 stack [98] hash = some false) ∧
    ∃ hash, encrypt .ENCRYPTION_PLAIN stack [97] false = some hash ∧
      encryptTest .ENCRYPTION_PLAIN stack [65] hash = some true := by
  intro stack
  constructor
  · obtain ⟨hash, verdict, hhash, hverdict, hiff⟩ :=
      encryptTest_encrypt .ENCRYPTION_SHA1 stack stack [97] [98] (by decide) (by decide)
    have hother : ¬ Matches .ENCRYPTION_SHA1 [98] [97] := by
      show ¬ Sha1.sha1 [98] = Sha1.sha1 [97]
      decide +kernel
    rw [Bool.eq_false_iff.mpr fun htrue => hother (hiff.mp htrue)] at hverdict
    exact ⟨hash, hhash, hverdict⟩
  · obtain ⟨hash, verdict, hhash, hverdict, hiff⟩ :=
      encryptTest_encrypt .ENCRYPTION_PLAIN stack stack [97] [65] (by decide) (by decide)
    have hsame : Matches .ENCRYPTION_PLAIN [65] [97] := by
      show List.map upchar [65] = List.map upchar [97]
      decide
    rw [hiff.mpr hsame] at hverdict
    exact ⟨hash, hhash, hverdict⟩

end TyanoCore.Encryption
