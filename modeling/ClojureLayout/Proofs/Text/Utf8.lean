import ClojureLayout.Text.Utf8

/-! What is written in UTF-8 is read back as it was: the bytes of each character are decoded to that character, and
    the bytes of a text to the text (`decode_toUTF8`). -/

namespace ClojureLayout.Text.Utf8

/-- The code point of a character is no surrogate and is within the range of Unicode. -/
theorem toNat_bounds (c : Char) : c.toNat < 0x110000 ∧ ¬(0xD800 ≤ c.toNat ∧ c.toNat < 0xE000) := by
  have hvalid : c.toNat < 0xD800 ∨ 0xDFFF < c.toNat ∧ c.toNat < 0x110000 := c.valid
  omega

/-! ### Sequences of bytes -/

variable {a b d e : UInt8} {position : Nat} {rest : List UInt8}

theorem decodeFrom_one (ha : a.toNat < 0x80) :
    decodeFrom position (a :: rest) = (decodeFrom (position + 1) rest).cons (Char.ofNat a.toNat) := by
  rw [decodeFrom.eq_def]
  simp only [if_pos ha]

theorem decodeFrom_two (hlow : 0xC2 ≤ a.toNat) (hhigh : a.toNat < 0xE0) (hb : isSecond a b = true) :
    decodeFrom position (a :: b :: rest) =
      (decodeFrom (position + 2) rest).cons (Char.ofNat (a.toNat % 32 * 64 + payload b)) := by
  have hascii : ¬a.toNat < 0x80 := by omega
  have hstart : ¬(a.toNat < 0xC2 ∨ 0xF4 < a.toNat) := by omega
  rw [decodeFrom.eq_def]
  simp only [if_neg hascii, if_neg hstart, hb, Bool.not_true, Bool.false_eq_true, if_false, if_pos hhigh]

theorem decodeFrom_three (hlow : 0xE0 ≤ a.toNat) (hhigh : a.toNat < 0xF0) (hb : isSecond a b = true)
    (hd : isContinuation d = true) :
    decodeFrom position (a :: b :: d :: rest) =
      (decodeFrom (position + 3) rest).cons (Char.ofNat ((a.toNat % 16 * 64 + payload b) * 64 + payload d)) := by
  have hascii : ¬a.toNat < 0x80 := by omega
  have hstart : ¬(a.toNat < 0xC2 ∨ 0xF4 < a.toNat) := by omega
  have htwo : ¬a.toNat < 0xE0 := by omega
  rw [decodeFrom.eq_def]
  simp only [if_neg hascii, if_neg hstart, if_neg htwo, hb, hd, Bool.not_true, Bool.false_eq_true, if_false,
    if_pos hhigh]

theorem decodeFrom_four (hlow : 0xF0 ≤ a.toNat) (hhigh : a.toNat ≤ 0xF4) (hb : isSecond a b = true)
    (hd : isContinuation d = true) (he : isContinuation e = true) :
    decodeFrom position (a :: b :: d :: e :: rest) =
      (decodeFrom (position + 4) rest).cons
        (Char.ofNat (((a.toNat % 8 * 64 + payload b) * 64 + payload d) * 64 + payload e)) := by
  have hascii : ¬a.toNat < 0x80 := by omega
  have hstart : ¬(a.toNat < 0xC2 ∨ 0xF4 < a.toNat) := by omega
  have htwo : ¬a.toNat < 0xE0 := by omega
  have hthree : ¬a.toNat < 0xF0 := by omega
  rw [decodeFrom.eq_def]
  simp only [if_neg hascii, if_neg hstart, if_neg htwo, if_neg hthree, hb, hd, he, Bool.not_true, Bool.false_eq_true,
    if_false]

/-! ### The bytes of a character -/

theorem toNat_ofNat_of_lt {n : Nat} (h : n < 256) : (UInt8.ofNat n).toNat = n := UInt8.toNat_ofNat_of_lt' h

theorem payload_ofNat {n : Nat} (h : n < 64) : payload (UInt8.ofNat (n + 0x80)) = n := by
  rw [payload, toNat_ofNat_of_lt (by omega)]
  omega

theorem isContinuation_ofNat {n : Nat} (h : n < 64) : isContinuation (UInt8.ofNat (n + 0x80)) = true := by
  rw [isContinuation, toNat_ofNat_of_lt (by omega)]
  simp
  omega

theorem isSecond_ofNat {n : Nat} (h : n < 64) (hlong : a.toNat = 0xE0 → 0x20 ≤ n)
    (hsurrogate : a.toNat = 0xED → n < 0x20) (hlonger : a.toNat = 0xF0 → 0x10 ≤ n)
    (hbeyond : a.toNat = 0xF4 → n < 0x10) :
    isSecond a (UInt8.ofNat (n + 0x80)) = true := by
  rw [isSecond, isContinuation_ofNat h, toNat_ofNat_of_lt (by omega)]
  simp
  omega

theorem mod_64_lt (n : Nat) : n % 64 < 64 := Nat.mod_lt n (by decide)

theorem decodeFrom_ofNat_one {v : Nat} (h : v ≤ 0x7F) :
    decodeFrom position (UInt8.ofNat v :: rest) = (decodeFrom (position + 1) rest).cons (Char.ofNat v) := by
  have hbyte : (UInt8.ofNat v).toNat = v := toNat_ofNat_of_lt (by omega)
  rw [decodeFrom_one (by omega), hbyte]

theorem decodeFrom_ofNat_two {v : Nat} (hlow : 0x7F < v) (hhigh : v ≤ 0x7FF) :
    decodeFrom position (UInt8.ofNat (v / 64 % 32 + 0xC0) :: UInt8.ofNat (v % 64 + 0x80) :: rest) =
      (decodeFrom (position + 2) rest).cons (Char.ofNat v) := by
  have hbyte : (UInt8.ofNat (v / 64 % 32 + 0xC0)).toNat = v / 64 + 0xC0 := by
    rw [toNat_ofNat_of_lt (by omega)]
    omega
  have hsecond : isSecond (UInt8.ofNat (v / 64 % 32 + 0xC0)) (UInt8.ofNat (v % 64 + 0x80)) = true :=
    isSecond_ofNat (mod_64_lt v) (by omega) (by omega) (by omega) (by omega)
  have hcode : (v / 64 + 0xC0) % 32 * 64 + v % 64 = v := by omega
  rw [decodeFrom_two (by omega) (by omega) hsecond, hbyte, payload_ofNat (mod_64_lt v), hcode]

theorem decodeFrom_ofNat_three {v : Nat} (hlow : 0x7FF < v) (hhigh : v ≤ 0xFFFF)
    (hsurrogate : ¬(0xD800 ≤ v ∧ v < 0xE000)) :
    decodeFrom position (UInt8.ofNat (v / 4096 % 16 + 0xE0) :: UInt8.ofNat (v / 64 % 64 + 0x80) ::
        UInt8.ofNat (v % 64 + 0x80) :: rest) =
      (decodeFrom (position + 3) rest).cons (Char.ofNat v) := by
  have hbyte : (UInt8.ofNat (v / 4096 % 16 + 0xE0)).toNat = v / 4096 + 0xE0 := by
    rw [toNat_ofNat_of_lt (by omega)]
    omega
  have hsecond : isSecond (UInt8.ofNat (v / 4096 % 16 + 0xE0)) (UInt8.ofNat (v / 64 % 64 + 0x80)) = true :=
    isSecond_ofNat (mod_64_lt _) (by omega) (by omega) (by omega) (by omega)
  have hcode : ((v / 4096 + 0xE0) % 16 * 64 + v / 64 % 64) * 64 + v % 64 = v := by omega
  rw [decodeFrom_three (by omega) (by omega) hsecond (isContinuation_ofNat (mod_64_lt v)), hbyte,
    payload_ofNat (mod_64_lt _), payload_ofNat (mod_64_lt v), hcode]

theorem decodeFrom_ofNat_four {v : Nat} (hlow : 0xFFFF < v) (hhigh : v < 0x110000) :
    decodeFrom position (UInt8.ofNat (v / 262144 % 8 + 0xF0) :: UInt8.ofNat (v / 4096 % 64 + 0x80) ::
        UInt8.ofNat (v / 64 % 64 + 0x80) :: UInt8.ofNat (v % 64 + 0x80) :: rest) =
      (decodeFrom (position + 4) rest).cons (Char.ofNat v) := by
  have hbyte : (UInt8.ofNat (v / 262144 % 8 + 0xF0)).toNat = v / 262144 + 0xF0 := by
    rw [toNat_ofNat_of_lt (by omega)]
    omega
  have hsecond : isSecond (UInt8.ofNat (v / 262144 % 8 + 0xF0)) (UInt8.ofNat (v / 4096 % 64 + 0x80)) = true :=
    isSecond_ofNat (mod_64_lt _) (by omega) (by omega) (by omega) (by omega)
  have hcode : (((v / 262144 + 0xF0) % 8 * 64 + v / 4096 % 64) * 64 + v / 64 % 64) * 64 + v % 64 = v := by omega
  rw [decodeFrom_four (by omega) (by omega) hsecond (isContinuation_ofNat (mod_64_lt _))
    (isContinuation_ofNat (mod_64_lt v)), hbyte, payload_ofNat (mod_64_lt _), payload_ofNat (mod_64_lt _),
    payload_ofNat (mod_64_lt v), hcode]

/-- The bytes of a character are decoded to it, and what follows them as it is decoded alone. -/
theorem decodeFrom_utf8EncodeChar (c : Char) (position : Nat) (rest : List UInt8) :
    ∃ next, decodeFrom position (String.utf8EncodeChar c ++ rest) = (decodeFrom next rest).cons c := by
  have hchar : Char.ofNat c.val.toNat = c := Char.ofNat_toNat c
  obtain ⟨hmax, hsurrogate⟩ := toNat_bounds c
  rw [show c.toNat = c.val.toNat from rfl] at hmax hsurrogate
  have hnext : ∃ next, decodeFrom position (String.utf8EncodeChar c ++ rest) =
      (decodeFrom next rest).cons (Char.ofNat c.val.toNat) := by
    rw [String.utf8EncodeChar]
    split
    · next hone => exact ⟨_, decodeFrom_ofNat_one hone⟩
    · next hone =>
      split
      · next htwo => exact ⟨_, decodeFrom_ofNat_two (Nat.lt_of_not_le hone) htwo⟩
      · next htwo =>
        split
        · next hthree => exact ⟨_, decodeFrom_ofNat_three (Nat.lt_of_not_le htwo) hthree hsurrogate⟩
        · next hthree => exact ⟨_, decodeFrom_ofNat_four (Nat.lt_of_not_le hthree) hmax⟩
  rwa [hchar] at hnext

/-! ### The bytes of a text -/

theorem decodeFrom_flatMap (cs : List Char) (position : Nat) :
    decodeFrom position (cs.flatMap String.utf8EncodeChar) = ⟨cs, .complete⟩ := by
  induction cs generalizing position with
  | nil => rfl
  | cons c cs ih =>
    obtain ⟨next, hnext⟩ := decodeFrom_utf8EncodeChar c position (cs.flatMap String.utf8EncodeChar)
    rw [List.flatMap_cons, hnext, ih next]
    rfl

theorem decode_toUTF8 (text : String) : decode text.toUTF8.data.toList = .ok text.toList := by
  have hbytes : text.toUTF8.data.toList = text.toList.flatMap String.utf8EncodeChar := by
    conv => lhs; rw [← String.ofList_toList (s := text)]
    rw [String.toUTF8_eq_toByteArray, String.toByteArray_ofList, List.utf8Encode, List.data_toByteArray]
  rw [hbytes, decode, decodeFrom_flatMap]

end ClojureLayout.Text.Utf8
