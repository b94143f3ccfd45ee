import ClojureLayout.Proofs.Scanner.Snippet
import ClojureLayout.Proofs.Server.Agreement

/-! What the server answers. Each notice is answered with one publication about its own document, which tells of the
    text of the notice and of nothing before it: nothing is wrong if the scan of the text ends with its end, and
    otherwise the error is marked, from its first character to the end of its text on that line
    (`notices_answered`). -/

namespace ClojureLayout
open Grammar Server

/-! ### The name of a source -/

def Position.renamed (name : String) (p : Position) : Position := { p with name }

/-- A token, as one of a source with another name. -/
def Token.renamed (name : String) (t : Token) : Token := { t with pos := t.pos.renamed name }

theorem Position.renamed_advanceAll (name : String) (p : Position) (cs : List Char) :
    (p.advanceAll cs).renamed name = (p.renamed name).advanceAll cs := by
  induction cs generalizing p with
  | nil => rfl
  | cons c cs ih =>
    have hadvance : (p.advance c).renamed name = (p.renamed name).advance c := by
      unfold advance
      split <;> rfl
    show ((p.advance c).advanceAll cs).renamed name = ((p.renamed name).advance c).advanceAll cs
    rw [ih, hadvance]

namespace Grammar
variable {p : Position} {text : List Char} {ts : List Token}

theorem Tokens.renamed (h : Tokens p text ts) (name : String) :
    Tokens (p.renamed name) text (ts.map (Token.renamed name)) := by
  induction h with
  | endOfText => exact .endOfText
  | blank hrun _ ih =>
    rw [Position.renamed_advanceAll] at ih
    exact .blank hrun ih
  | lexeme hw hlex _ ih =>
    rw [Position.renamed_advanceAll] at ih
    exact .lexeme hw hlex ih
  | failure hw hfail => exact .failure hw hfail

theorem Tokens.ends (h : Tokens p text ts) :
    ∃ earlier final, ts = earlier ++ [final] ∧ (final.kind = .eof ∨ final.kind = .error) := by
  induction h with
  | endOfText => exact ⟨[], _, rfl, .inl rfl⟩
  | blank _ _ ih => exact ih
  | lexeme _ _ _ ih =>
    obtain ⟨earlier, final, rfl, hfinal⟩ := ih
    exact ⟨_ :: earlier, final, rfl, hfinal⟩
  | failure => exact ⟨[], _, rfl, .inr rfl⟩

end Grammar

theorem tokenize_renamed (source name name' : String) :
    tokenize source name' = (tokenize source name).map (Token.renamed name') :=
  tokenize_of_tokens ((tokens_tokenize source name).renamed name')

/-! ### The first line of a token -/

/-- Token `t` of `source` begins behind `head`, which is whole lines, and behind `lead`, the part of its own line
    before it. Its text on that line is `marked`, behind which the line goes on with `tail`; `below` is the text
    behind the line. -/
structure Token.Begins (t : Token) (source name : String) (head lead marked tail below : List Char) : Prop where
  inLine : t.InLine source name head lead (marked ++ tail ++ below)
  feedless : '\n' ∉ marked ++ tail
  below_begins : ∀ c ∈ below.head?, c = '\n'
  marked_eq : marked = t.raw.toList.takeWhile (· != '\n')
  marked_ne_nil : marked ≠ []

theorem takeWhile_prefix_takeWhile {α : Type} {q : α → Bool} {as bs : List α} (h : as <+: bs) :
    as.takeWhile q <+: bs.takeWhile q := by
  obtain ⟨cs, rfl⟩ := h
  rw [List.takeWhile_append]
  split
  · exact (List.takeWhile_prefix q).trans (List.prefix_append as _)
  · exact List.prefix_rfl

variable {source name : String} {earlier : List Token} {t : Token} {head lead marked tail below : List Char}

theorem exists_begins (hts : tokenize source name = earlier ++ [t]) (hkind : t.kind = .error) :
    ∃ head lead marked tail below, t.Begins source name head lead marked tail below := by
  obtain ⟨head, lead, rest, hin, first, hfirst, hbreak⟩ := exists_inLine hts hkind
  obtain ⟨-, hfeedless, hbelow⟩ := hin.line
  obtain ⟨tail, htail⟩ := takeWhile_prefix_takeWhile (q := (· != '\n')) hin.raw_prefix
  refine ⟨head, lead, t.raw.toList.takeWhile (· != '\n'), tail, rest.dropWhile (· != '\n'), ?_, ?_, hbelow, rfl, ?_⟩
  · rwa [htail, List.takeWhile_append_dropWhile]
  · rw [htail]
    exact fun hmem => hfeedless (List.mem_append_right lead hmem)
  · obtain ⟨raw, hraw⟩ := List.head?_eq_some_iff.mp hfirst
    have hfeed : first ≠ '\n' := ne_of_apply_ne Text.isLineBreak (by rw [hbreak]; decide)
    rw [hraw, List.takeWhile_cons_of_pos (by simpa using hfeed)]
    exact List.cons_ne_nil _ _

/-- The range of an error is its text on the line where it begins. -/
theorem Token.Begins.ofToken_eq (h : t.Begins source name head lead marked tail below) :
    Diagnostic.ofToken t =
      { start := ⟨(head ++ lead).count '\n', lead.length⟩
        stop := ⟨(head ++ lead).count '\n', (lead ++ marked).length⟩
        message := t.value } := by
  have hline : t.pos.line = 1 + (head.count '\n' : Int) := by
    rw [h.inLine.pos_eq]
    exact Position.line_after name head h.inLine.lead_feedless
  have hcolumn : t.pos.column = 1 + (lead.length : Int) := by
    rw [h.inLine.pos_eq]
    exact Position.column_after name h.inLine.head_ends h.inLine.lead_feedless
  have hcount : (head ++ lead).count '\n' = head.count '\n' := by
    rw [List.count_append, List.count_eq_zero_of_not_mem h.inLine.lead_feedless, Nat.add_zero]
  have hwidth : max 1 (t.raw.toList.takeWhile (· != '\n')).length = marked.length := by
    rw [← h.marked_eq]
    exact Nat.max_eq_right (List.length_pos_iff.mpr h.marked_ne_nil)
  have hstart : (1 + (lead.length : Int)) - 1 = lead.length := by omega
  have hfirst : (1 + (head.count '\n' : Int)) - 1 = head.count '\n' := by omega
  simp only [Diagnostic.ofToken, hwidth, hline, hcolumn, hcount, hstart, hfirst, List.length_append, Int.natCast_add]

/-! ### Notices one after the other -/

namespace Server

/-- The answers to notices that are taken in one after the other. -/
def Workspace.answers {σ : Type} (w : Workspace σ) : σ → List Notice → List (List Publication)
  | _, [] => []
  | s, n :: notices => (w.handle s n).2 :: w.answers (w.handle s n).1 notices

theorem diagnose_eq (uri uri' text : String) : diagnose uri text = diagnose uri' text := by
  -- Neither what decides about a diagnostic nor what it tells of is renamed.
  rw [diagnose, diagnose, tokenize_renamed text (fileName uri') (fileName uri), Token.finalError?, Token.finalError?,
    List.getLast?_map, Option.filter_map, Option.map_map]
  rfl

theorem answers_eq {σ : Type} {w : Workspace σ} (hw : w.Faithful) (s : σ) (notices : List Notice) :
    w.answers s notices = notices.map fun n => [⟨n.uri, diagnose "" n.text⟩] := by
  induction notices generalizing s with
  | nil => rfl
  | cons n notices ih =>
    rw [Workspace.answers, ih, handle_publishes hw, diagnose_eq n.uri "" n.text, List.map_cons]

end Server

/-- If the workspace gives back the text just stored, a notice is answered with one publication about its own
    document, whatever was noticed before, and what it tells is told by the text of the notice alone. It tells of
    nothing if the scan of the text ends with the end of the text. If the scan ends with an error, it tells of this
    one, and marks the part of its text that stands on the line where it begins. -/
theorem notices_answered :
    ∃ diagnosed : String → List Diagnostic,
      (∀ {σ : Type} (w : Workspace σ), w.Faithful → ∀ (s : σ) (notices : List Notice),
        w.answers s notices = notices.map fun n => [⟨n.uri, diagnosed n.text⟩]) ∧
      ∀ text name : String, ∃ earlier final, tokenize text name = earlier ++ [final] ∧
        (final.kind = .eof ∧ diagnosed text = [] ∨
          final.kind = .error ∧ ∃ head lead marked tail below : List Char,
            final.Begins text name head lead marked tail below ∧
            diagnosed text = [{
              start := ⟨(head ++ lead).count '\n', lead.length⟩
              stop := ⟨(head ++ lead).count '\n', (lead ++ marked).length⟩
              message := final.value }]) := by
  refine ⟨diagnose "", fun _ => answers_eq, fun text name => ?_⟩
  obtain ⟨earlier, final, hts, hfinal⟩ := (tokens_tokenize text name).ends
  have herror : Token.finalError? (tokenize text (fileName "")) =
      (if final.kind = .error then some final else none).map (Token.renamed (fileName "")) := by
    rw [tokenize_renamed text name, hts, Token.finalError?, List.map_append, List.map_singleton, List.getLast?_concat]
    by_cases hkind : final.kind = .error <;> simp [Token.renamed, hkind]
  refine ⟨earlier, final, hts, hfinal.imp (fun heof => ⟨heof, ?_⟩) fun hkind => ⟨hkind, ?_⟩⟩
  · rw [diagnose, herror, heof]
    rfl
  · obtain ⟨head, lead, marked, tail, below, hbegins⟩ := exists_begins hts hkind
    refine ⟨head, lead, marked, tail, below, hbegins, ?_⟩
    rw [diagnose, herror, if_pos hkind, ← hbegins.ofToken_eq]
    rfl

/-- A text is answered in one way before and behind another text of its document. -/
theorem notices_answered_for_text_sent_twice :
    ∃ diagnosed : String → List Diagnostic,
      Workspace.ofNotices.answers [] [.opened "f.clj" "a\n|", .changed "f.clj" "a", .changed "f.clj" "a\n|"] =
        [[⟨"f.clj", diagnosed "a\n|"⟩], [⟨"f.clj", diagnosed "a"⟩], [⟨"f.clj", diagnosed "a\n|"⟩]] ∧
      diagnosed "a\n|" = [⟨⟨1, 0⟩, ⟨1, 1⟩, "unrecognized token starting with |", 1, "cljformat"⟩] ∧
      diagnosed "a" = [] := by
  obtain ⟨diagnosed, hanswers, -⟩ := notices_answered
  have hlaw := hanswers Workspace.ofNotices Workspace.ofNotices_faithful []
    [.opened "f.clj" "a\n|", .changed "f.clj" "a", .changed "f.clj" "a\n|"]
  have hrun : Workspace.ofNotices.answers [] [.opened "f.clj" "a\n|", .changed "f.clj" "a"] =
      [[⟨"f.clj", [⟨⟨1, 0⟩, ⟨1, 1⟩, "unrecognized token starting with |", 1, "cljformat"⟩]⟩], [⟨"f.clj", []⟩]] := by
    decide +kernel
  have hsame := (hanswers Workspace.ofNotices Workspace.ofNotices_faithful [] _).symm.trans hrun
  simp only [List.map_cons, List.map_nil, List.cons.injEq, Publication.mk.injEq] at hsame
  exact ⟨diagnosed, hlaw, hsame.1.1.2, hsame.2.1.1.2⟩

end ClojureLayout
