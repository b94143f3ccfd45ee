import ClojureLayout.Proofs.Text.Utf8
import ClojureLayout.Text.Quoted

/-! Quoting loses nothing and stays on its line. From a quoted text its characters are read back one by one
    (`readChar_quoteChar`), so two texts that are quoted alike are the same (`quoteChars_inj`), and no line feed is
    written in the course of it (`newline_notMem_quoteChars`). -/

namespace ClojureLayout.Text

/-! ### Hexadecimal numbers -/

def hexValue (c : Char) : Nat := if c.isDigit then c.toNat - 0x30 else c.toNat - 0x57

/-- The number that some hexadecimal digits stand for. -/
def hexNumber (cs : List Char) : Nat := cs.foldl (fun n c => n * 16 + hexValue c) 0

theorem hexValue_digitChar {d : Nat} (h : d < 16) : hexValue d.digitChar = d := by
  have hall : ∀ d < 16, hexValue (Nat.digitChar d) = d := by decide
  exact hall d h

theorem length_hexDigits (width n : Nat) : (hexDigits width n).length = width := by
  induction width generalizing n with
  | zero => rfl
  | succ width ih => rw [hexDigits, List.length_append, ih, List.length_singleton]

theorem hexNumber_hexDigits {width n : Nat} (h : n < Nat.pow 16 width) : hexNumber (hexDigits width n) = n := by
  induction width generalizing n with
  | zero =>
    rw [Nat.lt_one_iff.mp h]
    rfl
  | succ width ih =>
    have hwidth : n < Nat.pow 16 width * 16 := h
    have hhigh := ih (n := n / 16) (by omega)
    have hlow := hexValue_digitChar (Nat.mod_lt n (by decide : 0 < 16))
    rw [hexNumber] at hhigh ⊢
    rw [hexDigits, List.foldl_append, hhigh, List.foldl_cons, List.foldl_nil, hlow]
    omega

theorem newline_notMem_hexDigits (width n : Nat) : '\n' ∉ hexDigits width n := by
  induction width generalizing n with
  | zero => exact List.not_mem_nil
  | succ width ih =>
    have hdigit : ∀ d < 16, Nat.digitChar d ≠ '\n' := by decide
    rw [hexDigits, List.mem_append, List.mem_singleton]
    rintro (hmem | hmem)
    · exact ih _ hmem
    · exact hdigit _ (Nat.mod_lt n (by decide)) hmem.symm

/-! ### Reading back -/

def readHex (width : Nat) (cs : List Char) : Char × List Char :=
  (Char.ofNat (hexNumber (cs.take width)), cs.drop width)

/-- The first character of a text in quotation, and the quotation of the rest. -/
def readChar : List Char → Option (Char × List Char)
  | [] => none
  | '\\' :: 'n' :: cs => some ('\n', cs)
  | '\\' :: 'r' :: cs => some ('\r', cs)
  | '\\' :: 't' :: cs => some ('\t', cs)
  | '\\' :: 'x' :: cs => some (readHex 2 cs)
  | '\\' :: 'u' :: cs => some (readHex 4 cs)
  | '\\' :: 'U' :: cs => some (readHex 8 cs)
  | '\\' :: c :: cs => some (c, cs)
  | c :: cs => some (c, cs)

theorem readHex_hexDigits (width : Nat) {c : Char} (h : c.toNat < Nat.pow 16 width) (rest : List Char) :
    readHex width (hexDigits width c.toNat ++ rest) = (c, rest) := by
  rw [readHex, List.take_left' (length_hexDigits _ _), List.drop_left' (length_hexDigits _ _),
    hexNumber_hexDigits h, Char.ofNat_toNat]

theorem readChar_of_ne {c : Char} (h : c ≠ '\\') (rest : List Char) : readChar (c :: rest) = some (c, rest) := by
  unfold readChar
  split <;> simp_all

/-- The marks that a quoted text stands between. -/
def IsMark (quote : Char) : Prop := quote = '\x27' ∨ quote = '\x22'

theorem isMark_quoteMark (cs : List Char) : IsMark (quoteMark cs) := by
  unfold quoteMark
  split
  · exact .inr rfl
  · exact .inl rfl

theorem readChar_quoteChar {quote : Char} (hquote : IsMark quote) (c : Char) (rest : List Char) :
    readChar (quoteChar quote c ++ rest) = some (c, rest) := by
  fun_cases quoteChar quote c with
  | case1 h =>
    rcases h with rfl | rfl
    · rcases hquote with rfl | rfl <;> rfl
    · rfl
  | case2 _ hc =>
    rw [hc]
    rfl
  | case3 _ _ hc =>
    rw [hc]
    rfl
  | case4 _ _ _ hc =>
    rw [hc]
    rfl
  | case5 h => exact readChar_of_ne (not_or.mp h).2 rest
  | case6 _ _ _ _ _ hc => exact congrArg some (readHex_hexDigits 2 hc rest)
  | case7 _ _ _ _ _ _ hc => exact congrArg some (readHex_hexDigits 4 hc rest)
  | case8 =>
    have hbound : c.toNat < Nat.pow 16 8 := Nat.lt_trans (Utf8.toNat_bounds c).1 (by decide)
    exact congrArg some (readHex_hexDigits 8 hbound rest)

theorem flatMap_quoteChar_inj {quote : Char} (hquote : IsMark quote) {cs ds : List Char}
    (h : cs.flatMap (quoteChar quote) = ds.flatMap (quoteChar quote)) : cs = ds := by
  induction cs generalizing ds with
  | nil =>
    cases ds with
    | nil => rfl
    | cons d ds =>
      have hread := readChar_quoteChar hquote d (ds.flatMap (quoteChar quote))
      rw [← List.flatMap_cons, ← h] at hread
      cases hread
  | cons c cs ih =>
    have hread := readChar_quoteChar hquote c (cs.flatMap (quoteChar quote))
    rw [← List.flatMap_cons, h] at hread
    cases ds with
    | nil => cases hread
    | cons d ds =>
      rw [List.flatMap_cons, readChar_quoteChar hquote d] at hread
      obtain ⟨rfl, hrest⟩ := Prod.mk.inj (Option.some.inj hread)
      rw [ih hrest.symm]

theorem quoteChars_inj {cs ds : List Char} (h : quoteChars cs = quoteChars ds) : cs = ds := by
  unfold quoteChars at h
  obtain ⟨hmark, hbody⟩ := List.cons.inj h
  rw [hmark] at hbody
  exact flatMap_quoteChar_inj (isMark_quoteMark ds) (List.append_cancel_right hbody)

/-! ### On one line -/

theorem newline_notMem_quoteChar {quote : Char} (hquote : IsMark quote) (c : Char) : '\n' ∉ quoteChar quote c := by
  have hescape : ∀ (letter : Char) (width : Nat), letter ≠ '\n' →
      '\n' ∉ '\\' :: letter :: hexDigits width c.toNat := by
    intro letter width hletter
    simp [hletter.symm, newline_notMem_hexDigits]
  fun_cases quoteChar quote c with
  | case1 h =>
    have hc : c ≠ '\n' := by
      rcases h with rfl | rfl
      · rcases hquote with rfl | rfl <;> decide
      · decide
    simp [hc.symm]
  | case2 => decide
  | case3 => decide
  | case4 => decide
  | case5 _ hfeed => simpa using Ne.symm hfeed
  | case6 => exact hescape 'x' 2 (by decide)
  | case7 => exact hescape 'u' 4 (by decide)
  | case8 => exact hescape 'U' 8 (by decide)

theorem newline_notMem_quoteChars (cs : List Char) : '\n' ∉ quoteChars cs := by
  have hmark := isMark_quoteMark cs
  have hne : quoteMark cs ≠ '\n' := by
    rcases hmark with h | h <;> rw [h] <;> decide
  simp [quoteChars, hne.symm, newline_notMem_quoteChar hmark]

end ClojureLayout.Text
