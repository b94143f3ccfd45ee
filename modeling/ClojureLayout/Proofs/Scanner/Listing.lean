import ClojureLayout.Proofs.Scanner.Places
import ClojureLayout.Proofs.Text.Lines
import ClojureLayout.Proofs.Text.Quoted
import Mathlib.Data.List.Forall2
import Mathlib.Data.List.Nodup

/-! A listing of tokens tells them apart. A token is shown on one line, with its kind, line and column, and with its
    value if its kind has one; how a token is written follows from its kind and value, unless it is an error
    (`Grammar.IsLexeme.raw_eq`). So two sources whose tokens are listed alike have the same tokens, but for offsets and
    the text of an error (`listing_eq_iff`). -/

namespace ClojureLayout

/-! ### Whole numbers -/

namespace Decimal

theorem toDigits_inj {m n : Nat} (h : Nat.toDigits 10 m = Nat.toDigits 10 n) : m = n := by
  have hnumber := congrArg (Nat.ofDigitChars 10 · 0) h
  simpa using hnumber

theorem notMem_toDigits {c : Char} (hc : c.isDigit = false) (n : Nat) : c ∉ Nat.toDigits 10 n := by
  intro hmem
  rw [Nat.isDigit_of_mem_toDigits (by decide) (by decide) hmem] at hc
  cases hc

theorem notMem_digits {c : Char} (hc : c.isDigit = false) (hminus : c ≠ '-') (i : Int) : c ∉ digits i := by
  cases i with
  | ofNat n => exact notMem_toDigits hc n
  | negSucc n => simp [digits, hminus, notMem_toDigits hc]

theorem digits_ofNat_ne_negSucc (m n : Nat) : digits (.ofNat m) ≠ digits (.negSucc n) := by
  intro h
  have hminus : '-' ∉ digits (.ofNat m) := notMem_toDigits (by decide) m
  rw [h] at hminus
  exact hminus List.mem_cons_self

theorem digits_inj {i j : Int} (h : digits i = digits j) : i = j := by
  cases i with
  | ofNat m =>
    cases j with
    | ofNat n => rw [toDigits_inj h]
    | negSucc n => exact absurd h (digits_ofNat_ne_negSucc m n)
  | negSucc m =>
    cases j with
    | ofNat n => exact absurd h.symm (digits_ofNat_ne_negSucc n m)
    | negSucc n => rw [Nat.succ.inj (toDigits_inj (List.cons.inj h).2)]

end Decimal

/-! ### Kinds -/

namespace Kind

theorem mem_all (k : Kind) : k ∈ all := by cases k <;> decide

theorem label_inj {k l : Kind} (h : k.label = l.label) : k = l :=
  List.inj_on_of_nodup_map (f := label) (by decide) k.mem_all l.mem_all h

theorem notMem_label (k : Kind) : '@' ∉ k.label.toList ∧ '\n' ∉ k.label.toList := by
  have hall : ∀ k ∈ all, '@' ∉ k.label.toList ∧ '\n' ∉ k.label.toList := by decide +kernel
  exact hall k k.mem_all

/-- How a lexeme of the kind is written that stands for `value`. -/
def spelling (k : Kind) (value : List Char) : List Char :=
  match k with
  | string => '\x22' :: (value ++ ['\x22'])
  | dispatch => if value = ['#', '_'] then value else ['#']
  | octothorpe => ['#']
  | k => ((Grammar.marks.find? (·.2 == k)).map fun m => [m.1]).getD value

end Kind

namespace Grammar
variable {raw rest value : List Char} {kind : Kind}

/-- Kind and value tell how a lexeme is written. -/
theorem IsLexeme.raw_eq (h : IsLexeme raw rest kind value) : raw = kind.spelling value := by
  cases h with
  | dispatch hc =>
    have hne : ∀ c ∈ dispatched, c ≠ '_' := by simp [dispatched]
    simp [Kind.spelling, hne _ hc]
  | mark hmem =>
    have hall : ∀ m ∈ marks, [m.1] = m.2.spelling [] := by simp [marks, Kind.spelling]
    exact hall _ hmem
  | _ => rfl

/-- A lexeme of a kind that shows no value has none. -/
theorem IsLexeme.value_eq_nil (h : IsLexeme raw rest kind value) (hkind : kind.hasPayload = false) : value = [] := by
  cases h with
  | octothorpe => rfl
  | mark => rfl
  | _ => cases hkind

end Grammar

/-! ### Tokens -/

/-- Texts that go on behind the same separator are the same before and behind the first one. -/
theorem Text.append_separator_inj {sep : Char} {as bs rest rest' : List Char} (has : sep ∉ as) (hbs : sep ∉ bs)
    (h : as ++ sep :: rest = bs ++ sep :: rest') : as = bs ∧ rest = rest' := by
  induction as generalizing bs with
  | nil =>
    cases bs with
    | nil => exact ⟨rfl, (List.cons.inj h).2⟩
    | cons d bs => exact absurd ((List.cons.inj h).1 ▸ List.mem_cons_self) hbs
  | cons c as ih =>
    cases bs with
    | nil => exact absurd ((List.cons.inj h).1 ▸ List.mem_cons_self) has
    | cons d bs =>
      obtain ⟨rfl, htail⟩ := List.cons.inj h
      obtain ⟨rfl, hrest⟩ := ih (mt (List.mem_cons_of_mem c) has) (mt (List.mem_cons_of_mem c) hbs) htail
      exact ⟨rfl, hrest⟩

namespace Token
open Text
variable {t u : Token} {name : String}

/-- What stands behind the kind and place of a token on its line. -/
def argument (t : Token) : List Char :=
  if t.kind.hasPayload then '(' :: quoteChars t.value.toList ++ [')'] else []

theorem toList_text (t : Token) : t.text.toList =
    '<' :: (t.kind.label.toList ++ '@' :: (t.pos.name.toList ++ ':' :: (Decimal.digits t.pos.line ++
      ':' :: (Decimal.digits t.pos.column ++ '>' :: t.argument)))) := by
  have hseparators : "<".toList = ['<'] ∧ "@".toList = ['@'] ∧ ":".toList = [':'] ∧ ">".toList = ['>'] ∧
      "(".toList = ['('] ∧ ")".toList = [')'] := ⟨rfl, rfl, rfl, rfl, rfl, rfl⟩
  cases hp : t.kind.hasPayload <;>
    simp [text, argument, hp, Position.text, Decimal.ofInt, quoted, hseparators]

theorem argument_inj (ht : t.kind.hasPayload = true) (hu : u.kind.hasPayload = true) (h : t.argument = u.argument) :
    t.value = u.value := by
  rw [argument, argument, if_pos ht, if_pos hu] at h
  exact String.toList_inj.mp (quoteChars_inj (List.append_cancel_right (List.cons.inj h).2))

/-- The tokens are shown alike, and are written alike unless they are errors. -/
structure Alike (t u : Token) : Prop where
  kind_eq : t.kind = u.kind
  value_eq : t.value = u.value
  line_eq : t.pos.line = u.pos.line
  column_eq : t.pos.column = u.pos.column
  raw_eq : t.kind ≠ .error → t.raw = u.raw

/-- A token of the text called `name` has a value only if it shows one, and is written as its kind and value tell,
    unless it is an error. -/
structure Regular (name : String) (t : Token) : Prop where
  name_eq : t.pos.name = name
  value_eq : t.kind.hasPayload = false → t.value = ""
  raw_eq : t.kind ≠ .error → t.raw.toList = t.kind.spelling t.value.toList

theorem Regular.newline_notMem_text (ht : t.Regular name) (hname : '\n' ∉ name.toList) : '\n' ∉ t.text.toList := by
  have hargument : '\n' ∉ t.argument := by
    unfold argument
    split
    · simp [newline_notMem_quoteChars]
    · exact List.not_mem_nil
  have hdigits : ∀ i, '\n' ∉ Decimal.digits i := Decimal.notMem_digits (by decide) (by decide)
  simp [toList_text, ht.name_eq, hname, t.kind.notMem_label.2, hdigits, hargument]

theorem Regular.alike (ht : t.Regular name) (hu : u.Regular name) (h : t.text = u.text) : t.Alike u := by
  have hdigits : ∀ i, ':' ∉ Decimal.digits i ∧ '>' ∉ Decimal.digits i := fun i =>
    ⟨Decimal.notMem_digits (by decide) (by decide) i, Decimal.notMem_digits (by decide) (by decide) i⟩
  have hlist := congrArg String.toList h
  rw [toList_text, toList_text, ht.name_eq, hu.name_eq] at hlist
  obtain ⟨hlabel, hlist⟩ :=
    append_separator_inj t.kind.notMem_label.1 u.kind.notMem_label.1 (List.cons.inj hlist).2
  obtain ⟨hline, hlist⟩ :=
    append_separator_inj (hdigits _).1 (hdigits _).1 (List.cons.inj (List.append_cancel_left hlist)).2
  obtain ⟨hcolumn, hargument⟩ := append_separator_inj (hdigits _).2 (hdigits _).2 hlist
  have hkind : t.kind = u.kind := Kind.label_inj (String.toList_inj.mp hlabel)
  have hvalue : t.value = u.value := by
    cases hp : t.kind.hasPayload with
    | false => rw [ht.value_eq hp, hu.value_eq (hkind ▸ hp)]
    | true => exact argument_inj hp (hkind ▸ hp) hargument
  refine ⟨hkind, hvalue, Decimal.digits_inj hline, Decimal.digits_inj hcolumn, fun herror => ?_⟩
  rw [← String.toList_inj, ht.raw_eq herror, hu.raw_eq (hkind ▸ herror), hkind, hvalue]

theorem Regular.text_eq_iff (ht : t.Regular name) (hu : u.Regular name) : t.text = u.text ↔ t.Alike u := by
  refine ⟨ht.alike hu, fun h => ?_⟩
  rw [← String.toList_inj, toList_text, toList_text, argument, argument, ht.name_eq, hu.name_eq, h.kind_eq, h.value_eq,
    h.line_eq, h.column_eq]

theorem map_text_eq_iff {ts us : List Token} (hts : ∀ t ∈ ts, t.Regular name) (hus : ∀ u ∈ us, u.Regular name) :
    ts.map text = us.map text ↔ List.Forall₂ Alike ts us := by
  induction ts generalizing us with
  | nil => simp [eq_comm]
  | cons t ts ih =>
    cases us with
    | nil => simp
    | cons u us =>
      rw [List.forall_mem_cons] at hts hus
      rw [List.map_cons, List.map_cons, List.cons.injEq, List.forall₂_cons, hts.1.text_eq_iff hus.1, ih hts.2 hus.2]

end Token

namespace Grammar

theorem Tokens.regular {p : Position} {text : List Char} {ts : List Token} (h : Tokens p text ts) :
    ∀ t ∈ ts, t.Regular p.name := by
  induction h with
  | endOfText => simpa using ⟨rfl, fun _ => rfl, fun _ => rfl⟩
  | blank _ _ ih => rwa [Position.advanceAll_name] at ih
  | lexeme _ hlex _ ih =>
    rw [Position.advanceAll_name] at ih
    refine List.forall_mem_cons.mpr ⟨⟨rfl, fun hkind => ?_, fun _ => ?_⟩, ih⟩
    · rw [hlex.value_eq_nil hkind]
    · rw [String.toList_ofList, String.toList_ofList, hlex.raw_eq]
  | failure => simpa using ⟨rfl, nofun, fun herror => absurd rfl herror⟩

end Grammar

/-- In a text whose name has no line feed, the listing of the tokens has one line for each of them, and tokens of two
    texts of that name are listed alike just when they agree in kind, value, line and column, and, unless they are
    errors, in what is written. -/
theorem listing_eq_iff {name : String} (hname : '\n' ∉ name.toList) :
    (∀ source, (Token.listing (tokenize source name)).toList.splitOn '\n' =
      (tokenize source name).map (·.text.toList) ++ [[]]) ∧
    ∀ source source', Token.listing (tokenize source name) = Token.listing (tokenize source' name) ↔
      List.Forall₂ Token.Alike (tokenize source name) (tokenize source' name) := by
  have hregular : ∀ source, ∀ t ∈ tokenize source name, t.Regular name := fun source =>
    (tokens_tokenize source name).regular
  have hlines : ∀ source, ∀ line ∈ (tokenize source name).map Token.text, '\n' ∉ line.toList := fun source =>
    List.forall_mem_map.mpr fun t ht => (hregular source t ht).newline_notMem_text hname
  have hlisting : ∀ source, Token.listing (tokenize source name) =
      String.join (((tokenize source name).map Token.text).map (· ++ "\n")) := fun source => by
    rw [Token.listing, List.map_map]
    rfl
  constructor
  · intro source
    rw [hlisting, Text.splitOn_join_lines (hlines source), List.map_map]
    rfl
  · intro source source'
    rw [← Token.map_text_eq_iff (hregular source) (hregular source'), hlisting, hlisting]
    exact ⟨Text.join_lines_inj (hlines source) (hlines source'), fun h => by rw [h]⟩

/-- Blanks of one and of two bytes, and texts that no quotation mark closes: what is not shown differs. -/
theorem listing_eq_iff_of_open_strings :
    '\n' ∉ "<input>".toList ∧
    Token.listing (tokenize "é \x22x" "<input>") = Token.listing (tokenize "é\u00a0\x22y" "<input>") ∧
    List.Forall₂ Token.Alike (tokenize "é \x22x" "<input>") (tokenize "é\u00a0\x22y" "<input>") ∧
    tokenize "é \x22x" "<input>" ≠ tokenize "é\u00a0\x22y" "<input>" := by
  have hname : '\n' ∉ "<input>".toList := by decide
  have hlisting : Token.listing (tokenize "é \x22x" "<input>") = Token.listing (tokenize "é\u00a0\x22y" "<input>") := by
    decide +kernel
  exact ⟨hname, hlisting, ((listing_eq_iff hname).2 _ _).mp hlisting, by decide +kernel⟩

end ClojureLayout
