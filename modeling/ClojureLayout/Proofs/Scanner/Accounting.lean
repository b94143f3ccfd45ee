import ClojureLayout.Proofs.Scanner.Standing

/-! What reading does to the characters of a source. A scanner holds the text it has gathered, perhaps a
    character put back, and the reads to come; the characters of these, in this order, are its
    content. Reading on within a token keeps the content and uses up reads from the front
    (`Reads`), and it breaks off only at a read that fails. A lexeme takes its own text from the front
    of the content, and nothing else (`Delivers`): what it takes is white space or the raws of its
    tokens. A scan has one token that ends it, its last, unless a fault breaks it off (`Emission.Ends`). -/

namespace ClojureLayout

/-- The characters that some reads give, in order. -/
def Read.chars (reads : List Read) : List Char :=
  reads.filterMap fun
    | .char c => some c
    | .nothing | .fault _ => none

@[simp] theorem Read.chars_nil : Read.chars [] = [] := rfl

@[simp] theorem Read.chars_char (c : Char) (reads : List Read) :
    Read.chars (.char c :: reads) = c :: Read.chars reads :=
  rfl

@[simp] theorem Read.chars_nothing (reads : List Read) : Read.chars (.nothing :: reads) = Read.chars reads := rfl

@[simp] theorem Read.chars_append (as bs : List Read) : Read.chars (as ++ bs) = Read.chars as ++ Read.chars bs :=
  List.filterMap_append

@[simp] theorem Read.chars_ofChars (cs : List Char) : Read.chars (Read.ofChars cs) = cs := by
  induction cs with
  | nil => rfl
  | cons c cs ih => exact congrArg (c :: ·) ih

namespace Scanner

/-- The characters a scanner holds or has ahead of it, in the order of the source. -/
def content (s : Scanner) : List Char := s.gathered.reverse ++ Read.chars s.ahead

theorem content_of_pushback {s : Scanner} (h : s.pushback = none) :
    s.content = s.gathered.reverse ++ Read.chars s.reads := by
  simp [content, ahead, h]

/-- `t` has come from `s` by reading: no character is lost or repeated on the way. -/
structure Follows (t s : Scanner) : Prop where
  reads_suffix : t.reads <:+ s.reads
  content_eq : t.content = s.content

theorem Follows.refl (s : Scanner) : s.Follows s := ⟨List.suffix_rfl, rfl⟩

theorem Follows.trans {s t u : Scanner} (hu : u.Follows t) (ht : t.Follows s) : u.Follows s :=
  ⟨hu.reads_suffix.trans ht.reads_suffix, hu.content_eq.trans ht.content_eq⟩

/-- The scanner stands right before a read that fails, and `fault` is its failure. -/
def StoppedBy (s : Scanner) (fault : ScanFault) : Prop :=
  s.pushback = none ∧ ∃ cause later, fault = .read cause ∧ s.reads = .fault cause :: later

/-- A read has given nothing: there are no reads to come, or one of `reads` gave nothing. -/
def RunOut (s : Scanner) (reads : List Read) : Prop := s.pushback = none ∧ (s.reads = [] ∨ .nothing ∈ reads)

end Scanner

open Scanner

namespace Scan

/-! ### Reading on within a token -/

/-- What reading on from `s` may come to: all is kept, and only a read that fails breaks it off. -/
def ReadsTo {α : Type} (s : Scanner) : EStateM.Result ScanFault Scanner α → Prop
  | .ok _ t => t.Follows s
  | .error fault t => t.Follows s ∧ t.StoppedBy fault

/-- The program only reads on. -/
def Reads {α : Type} (x : Scan α) : Prop := ∀ s, ReadsTo s (x s)

section Reads
variable {α : Type} {s t : Scanner} {c : Char} {fault : ScanFault}

theorem ReadsTo.after {r : EStateM.Result ScanFault Scanner α} (ht : t.Follows s) (hr : ReadsTo t r) : ReadsTo s r := by
  cases r with
  | ok a u => exact hr.trans ht
  | error fault u => exact ⟨hr.1.trans ht, hr.2⟩

/-! ### Single characters -/

theorem next_some (h : next s = .ok (some c) t) :
    t.Follows s ∧ t.pushback = none ∧ t.gathered = c :: s.gathered ∧ t.last = some ⟨c, s.pos⟩ := by
  unfold next at h
  split at h
  · rename_i d hd
    cases h
    exact ⟨⟨List.suffix_rfl, by simp [content, ahead, consume, hd]⟩, rfl, rfl, rfl⟩
  · rename_i hd
    split at h
    · cases h
    · cases h
    · rename_i d later hr
      cases h
      exact ⟨⟨hr ▸ List.suffix_cons _ _, by simp [content, ahead, consume, hd, hr]⟩, hd, rfl, rfl⟩
    · cases h

theorem next_none (h : next s = .ok none t) : t.Follows s ∧ t.RunOut s.reads ∧ t.gathered = s.gathered := by
  unfold next at h
  split at h
  · cases h
  · rename_i hd
    split at h
    · rename_i hr
      cases h
      exact ⟨.refl s, ⟨hd, Or.inl hr⟩, rfl⟩
    · rename_i later hr
      cases h
      exact ⟨⟨hr ▸ List.suffix_cons _ _, by simp [content, ahead, hd, hr]⟩, ⟨hd, Or.inr (by simp [hr])⟩, rfl⟩
    · cases h
    · cases h

theorem next_error (h : next s = .error fault t) : t.Follows s ∧ t.StoppedBy fault := by
  unfold next at h
  split at h
  · cases h
  · rename_i hd
    split at h
    · cases h
    · cases h
    · cases h
    · rename_i cause later hr
      cases h
      exact ⟨.refl s, hd, cause, later, rfl, hr⟩

theorem reads_next : Reads next := by
  intro s
  match h : next s with
  | .ok (some c) t => exact (next_some h).1
  | .ok none t => exact (next_none h).1
  | .error fault t => exact next_error h

/-- Right after a character was read, it can be put back. -/
theorem back_of_next_some (h : next s = .ok (some c) t) :
    ∃ u, back t = .ok () u ∧ u.Follows s ∧ u.gathered = s.gathered := by
  obtain ⟨hfollows, hp, hg, hl⟩ := next_some h
  refine ⟨{ t with pushback := some c, pos := s.pos, gathered := s.gathered, last := none },
    by simp only [back, hl, hg], ⟨hfollows.reads_suffix, ?_⟩, rfl⟩
  rw [← hfollows.content_eq]
  simp [content, ahead, hp, hg]

section TakeIf
variable {p : Char → Bool}

theorem takeIf_of_next_some (h : next s = .ok (some c) t) : ∃ u, takeIf p s = .ok (some c) u ∧ u.Follows s := by
  cases hc : p c with
  | true =>
    refine ⟨t, ?_, (next_some h).1⟩
    simp only [takeIf, bind_apply, h, Option.any_some, hc, Bool.not_true, Bool.false_eq_true, ↓reduceIte, pure_apply]
  | false =>
    obtain ⟨u, hu, hfollows, -⟩ := back_of_next_some h
    refine ⟨u, ?_, hfollows⟩
    simp only [takeIf, bind_apply, h, Option.any_some, hc, Bool.not_false, ↓reduceIte, hu, pure_apply]

theorem takeIf_of_next_none (h : next s = .ok none t) : takeIf p s = .ok none t := by
  simp only [takeIf, bind_apply, h, Option.any_none, Bool.false_eq_true, ↓reduceIte, pure_apply]

theorem takeIf_of_next_error (h : next s = .error fault t) : takeIf p s = .error fault t := by
  simp only [takeIf, bind_apply, h]

theorem takeIf_none (h : takeIf p s = .ok none t) : t.RunOut s.reads := by
  match hn : next s with
  | .ok (some c) u =>
    obtain ⟨v, hv, -⟩ := takeIf_of_next_some (p := p) hn
    cases hv.symm.trans h
  | .ok none u =>
    cases (takeIf_of_next_none hn).symm.trans h
    exact (next_none hn).2.1
  | .error fault u => cases (takeIf_of_next_error hn).symm.trans h

theorem reads_takeIf (p : Char → Bool) : Reads (takeIf p) := by
  intro s
  match hn : next s with
  | .ok (some c) t =>
    obtain ⟨u, hu, hfollows⟩ := takeIf_of_next_some (p := p) hn
    rw [hu]
    exact hfollows
  | .ok none t =>
    rw [takeIf_of_next_none hn]
    exact (next_none hn).1
  | .error fault t =>
    rw [takeIf_of_next_error hn]
    exact next_error hn

end TakeIf

/-! ### Runs of characters -/

/-- Reading on while `p` holds gathers a run of characters with `p`. -/
theorem gathered_takeWhile {p : Char → Bool} (h : takeWhile p s = .ok () t) :
    ∃ run, t.gathered = run ++ s.gathered ∧ ∀ d ∈ run, p d = true := by
  fun_induction takeWhile p s with
  | case1 s d u hu hp ih =>
    obtain ⟨run, hrun, hall⟩ := ih h
    refine ⟨run ++ [d], by rw [hrun, (next_some hu).2.2.1, List.append_assoc, List.singleton_append], ?_⟩
    simpa [hp, or_imp, forall_and] using hall
  | case2 s d u hu hp =>
    obtain ⟨v, hv, -, hgathered⟩ := back_of_next_some hu
    cases hv.symm.trans h
    exact ⟨[], hgathered, by simp⟩
  | case3 s u hu =>
    cases h
    exact ⟨[], (next_none hu).2.2, by simp⟩
  | case4 => cases h

theorem reads_takeWhile (p : Char → Bool) : Reads (takeWhile p) := by
  intro s
  fun_induction takeWhile p s with
  | case1 s d u hu hp ih => exact ih.after (next_some hu).1
  | case2 s d u hu hp =>
    obtain ⟨v, hv, hfollows, -⟩ := back_of_next_some hu
    rw [hv]
    exact hfollows
  | case3 s u hu => exact (next_none hu).1
  | case4 s fault u hu => exact next_error hu

theorem reads_takeString (escaped : Bool) : Reads (takeString escaped) := by
  intro s
  fun_induction takeString escaped s with
  | case1 s u hu ih => exact ih.after (next_some hu).1
  | case2 _ s u _ hu => exact (next_some hu).1
  | case3 _ s u hu _ ih => exact ih.after (next_some hu).1
  | case4 _ s c u hu _ _ ih => exact ih.after (next_some hu).1
  | case5 _ s u hu => exact (next_none hu).1
  | case6 _ s fault u hu => exact next_error hu

/-- A string that is not closed goes on until nothing is left to read. -/
theorem pushback_of_takeString {escaped : Bool} (h : takeString escaped s = .ok false t) : t.pushback = none := by
  fun_induction takeString escaped s with
  | case1 s u hu ih => exact ih h
  | case2 => cases h
  | case3 _ s u hu _ ih => exact ih h
  | case4 _ s c u hu _ _ ih => exact ih h
  | case5 _ s u hu =>
    cases h
    exact (next_none hu).2.1.1
  | case6 => cases h

end Reads

/-! ### Lexemes -/

/-- What reading a lexeme from `s` may come to. White space is skipped; a token that does not end the scan
    takes its raw from the content; the last tokens are given where the scan stops, the only one that ends a
    scan at the end of them. The end of the source is given only where nothing is left to read. -/
def Delivers (s : Scanner) : EStateM.Result ScanFault Scanner Lexeme → Prop
  | .ok .blank t => t.reads <:+ s.reads ∧ t.gathered = [] ∧
      ∃ gap, (∀ c ∈ gap, isWhitespace c = true) ∧ s.content = gap ++ t.content
  | .ok (.token token) t => t.reads <:+ s.reads ∧ t.gathered = [] ∧ token.kind.isTerminal = false ∧
      s.content = token.raw.toList ++ t.content
  | .ok (.last tokens) t => t.reads <:+ s.reads ∧ t.pushback = none ∧
      ∃ before final, tokens = before ++ [final] ∧ (∀ token ∈ before, token.kind.isTerminal = false) ∧
        final.kind.isTerminal = true ∧ (final.kind = .eof → t.reads = [] ∨ .nothing ∈ s.reads) ∧
        s.content = tokens.flatMap (·.raw.toList) ++ Read.chars t.reads
  | .error fault t => t.Follows s ∧ t.StoppedBy fault

section Delivers
variable {α : Type} {x : Scan α} {f : α → Scan Lexeme} {s t : Scanner} {c : Char}

theorem Delivers.after {r : EStateM.Result ScanFault Scanner Lexeme} (ht : t.Follows s) (hr : Delivers t r) :
    Delivers s r := by
  have hcontent := ht.content_eq
  match r with
  | .ok .blank u =>
    obtain ⟨hsuffix, hgathered, gap, hgap, hu⟩ := hr
    exact ⟨hsuffix.trans ht.reads_suffix, hgathered, gap, hgap, hcontent ▸ hu⟩
  | .ok (.token token) u =>
    obtain ⟨hsuffix, hgathered, hkind, hu⟩ := hr
    exact ⟨hsuffix.trans ht.reads_suffix, hgathered, hkind, hcontent ▸ hu⟩
  | .ok (.last tokens) u =>
    obtain ⟨hsuffix, hpushback, before, final, hsplit, hbefore, hfinal, heof, hu⟩ := hr
    exact ⟨hsuffix.trans ht.reads_suffix, hpushback, before, final, hsplit, hbefore, hfinal,
      fun h => (heof h).imp_right fun hm => ht.reads_suffix.subset hm, hcontent ▸ hu⟩
  | .error fault u => exact ⟨hr.1.trans ht, hr.2⟩

/-- A program that goes on after reading delivers what the rest of it does. -/
theorem delivers_bind (hx : Reads x) (hf : ∀ a t, x s = .ok a t → t.Follows s → Delivers s (f a t)) :
    Delivers s ((x >>= f) s) := by
  have hxs := hx s
  rw [bind_apply]
  cases h : x s with
  | ok a t =>
    rw [h] at hxs
    exact hf a t h hxs
  | error fault t =>
    rw [h] at hxs
    exact hxs

theorem delivers_token {kind : Kind} (hkind : kind.isTerminal = false) (value : Option String) :
    Delivers s (token kind value s) :=
  ⟨List.suffix_rfl, rfl, hkind, by simp [content, Scanner.text, ahead]⟩

theorem delivers_failure (hp : s.pushback = none) (message : String) : Delivers s (failure message s) :=
  ⟨List.suffix_rfl, hp, [], _, rfl, by simp, rfl, by simp, by simp [content_of_pushback hp, Scanner.text]⟩

/-- Where nothing is left to read, the source ends after the text gathered. -/
theorem delivers_endOfSource (ht : t.Follows s) (hout : t.RunOut s.reads) :
    Delivers s (endOfSource [] t) := by
  refine ⟨ht.reads_suffix, hout.1, [], _, rfl, by simp, rfl, fun _ => hout.2, ?_⟩
  rw [← ht.content_eq]
  simp [content_of_pushback hout.1, Scanner.text]

/-- Where nothing is left to read, the text gathered may be a token before the end of the source. -/
theorem delivers_lastToken {kind : Kind} (hkind : kind.isTerminal = false) (ht : t.Follows s)
    (hout : t.RunOut s.reads) :
    Delivers s ((do endOfSource [← emit kind] : Scan Lexeme) t) := by
  refine ⟨ht.reads_suffix, hout.1, [_], _, rfl, by simpa using hkind, rfl, fun _ => hout.2, ?_⟩
  rw [← ht.content_eq]
  simp [content_of_pushback hout.1, Scanner.text]

theorem delivers_run {kind : Kind} (hkind : kind.isTerminal = false) (p : Char → Bool) : Delivers s (run p kind s) :=
  delivers_bind (reads_takeWhile p) fun _ _ _ ht => (delivers_token hkind none).after ht

theorem delivers_whitespace (hs : ∀ d ∈ s.gathered, isWhitespace d = true) : Delivers s (whitespace s) := by
  refine delivers_bind (reads_takeWhile isWhitespace) fun _ t h ht => ?_
  obtain ⟨run, hrun, hall⟩ := gathered_takeWhile h
  refine ⟨ht.reads_suffix, rfl, t.gathered.reverse, ?_, by rw [← ht.content_eq]; rfl⟩
  simpa [hrun, or_imp, forall_and] using ⟨hs, hall⟩

theorem delivers_string : Delivers s (string s) := by
  refine delivers_bind (reads_takeString false) fun closed t h ht => ?_
  cases closed with
  | false => exact (delivers_failure (pushback_of_takeString h) _).after ht
  | true => exact (delivers_token rfl _).after ht

theorem delivers_charLiteral : Delivers s (charLiteral s) := by
  refine delivers_bind reads_next fun d t h ht => ?_
  cases d with
  | none => exact (delivers_failure (next_none h).2.1.1 _).after ht
  | some d => exact (delivers_run rfl _).after ht

theorem delivers_dispatch : Delivers s (dispatch s) := by
  refine delivers_bind (reads_takeIf _) fun d t h ht => ?_
  split
  · exact delivers_lastToken rfl ht (takeIf_none h)
  · exact (delivers_token rfl _).after ht
  · split
    · exact (delivers_token rfl _).after ht
    · exact (delivers_token rfl _).after ht

theorem delivers_signed : Delivers s (signed s) := by
  refine delivers_bind (reads_takeIf _) fun d t h ht => ?_
  cases d with
  | none => exact delivers_lastToken rfl ht (takeIf_none h)
  | some d =>
    refine (delivers_run ?_ _).after ht
    split <;> rfl

theorem isTerminal_of_ofMark? {kind : Kind} (h : Kind.ofMark? c = some kind) : kind.isTerminal = false := by
  unfold Kind.ofMark? at h
  split at h <;> cases h <;> rfl

theorem delivers_ite {P : Prop} [Decidable P] {x y : Scan Lexeme} (hx : P → Delivers s (x s))
    (hy : ¬P → Delivers s (y s)) : Delivers s ((if P then x else y) s) := by
  by_cases h : P
  · rw [if_pos h]
    exact hx h
  · rw [if_neg h]
    exact hy h

/-- The lexeme that a character begins, when the character is all that is gathered. -/
theorem delivers_lexemeFrom (hp : s.pushback = none) (hs : s.gathered = [c]) : Delivers s (lexemeFrom c s) := by
  refine delivers_ite (fun _ => delivers_run rfl _) fun _ => ?_
  refine delivers_ite (fun _ => delivers_string) fun _ => ?_
  refine delivers_ite (fun _ => delivers_charLiteral) fun _ => ?_
  refine delivers_ite (fun _ => delivers_run rfl _) fun _ => ?_
  refine delivers_ite (fun _ => delivers_run rfl _) fun _ => ?_
  refine delivers_ite (fun _ => delivers_dispatch) fun _ => ?_
  refine delivers_ite (fun _ => delivers_signed) fun _ => ?_
  cases hkind : Kind.ofMark? c with
  | some kind => exact delivers_token (isTerminal_of_ofMark? hkind) none
  | none =>
    refine delivers_ite (fun hw => delivers_whitespace (by simpa [hs] using hw)) fun _ => ?_
    refine delivers_ite (fun _ => delivers_run rfl _) fun _ => ?_
    exact delivers_ite (fun _ => delivers_run rfl _) fun _ => delivers_failure hp _

theorem delivers_lexeme (hs : s.gathered = []) : Delivers s (lexeme s) := by
  refine delivers_bind reads_next fun d t h ht => ?_
  cases d with
  | none => exact delivers_endOfSource ht (next_none h).2.1
  | some d =>
    obtain ⟨-, hp, hg, -⟩ := next_some h
    exact (delivers_lexemeFrom hp (hs ▸ hg)).after ht

end Delivers

end Scan

/-! ### How a scan ends -/

/-- The tokens of a scan in order, up to one that ends it or to the fault that broke it off. -/
inductive Emission.Ends : Emission → Prop
  | final {t : Token} : t.kind.isTerminal = true → Ends { tokens := [t] }
  | broken (fault : ScanFault) : Ends { tokens := [], fault := some fault }
  | cons {t : Token} {e : Emission} : t.kind.isTerminal = false → Ends e → Ends (e.cons t)

theorem Emission.ends_concat {before : List Token} {t : Token} (hbefore : ∀ u ∈ before, u.kind.isTerminal = false)
    (ht : t.kind.isTerminal = true) : Ends { tokens := before ++ [t] } := by
  induction before with
  | nil => exact .final ht
  | cons u before ih =>
    rw [List.forall_mem_cons] at hbefore
    exact .cons hbefore.1 (ih hbefore.2)

theorem Emission.Ends.terminal_mem {e : Emission} (h : e.Ends) (hfault : e.fault = none) :
    ∃ t ∈ e.tokens, t.kind.isTerminal = true := by
  induction h with
  | final ht => exact ⟨_, List.mem_singleton_self _, ht⟩
  | broken => cases hfault
  | cons _ _ ih =>
    obtain ⟨t, ht, hterminal⟩ := ih hfault
    exact ⟨t, List.mem_cons_of_mem _ ht, hterminal⟩

namespace Scanner
variable {s t : Scanner}

theorem emission_of_error {fault : ScanFault} (h : Scan.lexeme s = .error fault t) :
    s.emission = t.interrupted fault := by
  rw [emission]
  split <;> simp_all

theorem ends_interrupted (fault : ScanFault) : (s.interrupted fault).Ends := by
  cases fault with
  | read cause =>
    simp only [interrupted]
    split
    · exact .final rfl
    · exact .broken _
  | nothingRead => exact .broken _
  | nothingGathered => exact .broken _

theorem ends_emission (hs : s.gathered = []) : s.emission.Ends := by
  have hdelivers := Scan.delivers_lexeme hs
  fun_induction emission s with
  | case1 s t h ih =>
    rw [h] at hdelivers
    exact ih hdelivers.2.1 (Scan.delivers_lexeme hdelivers.2.1)
  | case2 s token t h ih =>
    rw [h] at hdelivers
    obtain ⟨-, hgathered, hkind, -⟩ := hdelivers
    exact .cons hkind (ih hgathered (Scan.delivers_lexeme hgathered))
  | case3 s tokens t h =>
    rw [h] at hdelivers
    obtain ⟨-, -, before, final, rfl, hbefore, hfinal, -⟩ := hdelivers
    exact Emission.ends_concat hbefore hfinal
  | case4 s fault t h => exact ends_interrupted fault

end Scanner

end ClojureLayout
