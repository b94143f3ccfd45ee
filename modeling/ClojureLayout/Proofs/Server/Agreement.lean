import ClojureLayout.CommandLine.Run
import ClojureLayout.Proofs.Scanner.LineEnds
import ClojureLayout.Proofs.Text.Utf8
import ClojureLayout.Server.Diagnostic

/-! The command line and the server find the same errors. A run on a file scans the text of the file with its line
    ends unified, and the server scans the text as the editor sends it; where each carriage return stands before a
    line feed both report the same message at the same line and column, or both report none
    (`run_agrees_with_server`). -/

namespace ClojureLayout
open CommandLine Server Text

variable {files : FileReader Id} {arguments : List String} {r : Request} {o : Options} {text uri : String}

/-! ### What each of them reports -/

theorem reportScan_of_finalError {source : String} {t : Token}
    (h : Token.finalError? (tokenize source o.input.text) = some t) :
    (scanSource source o).result = .error (.ofScan t.value t.pos) ∧ (reportScan source o).ending = .returned 1 ∧
      (reportScan source o).errors =
        (scanSource source o).trace ++ (LocatedError.ofScan t.value t.pos).snippet source ++ "\n" := by
  have hresult : (scanSource source o).result = .error (.ofScan t.value t.pos) := by simp only [scanSource, h]
  simp only [reportScan, hresult, and_self]

theorem reportScan_of_no_error {source : String} (h : Token.finalError? (tokenize source o.input.text) = none) :
    (reportScan source o).ending = .returned 0 := by
  have hresult : (scanSource source o).result = .ok (tokenize source o.input.text) := by simp only [scanSource, h]
  simp only [reportScan, hresult]

/-- A run on a file that holds a text scans the text with its line ends unified. -/
theorem run_of_file (harguments : parseArguments arguments = .ok r) (hoptions : (resolveOptions files r).run = .ok o)
    (hlist : o.listTransforms = false) (hfile : (files.read o.input).run = .ok text.toUTF8.data.toList) :
    (run files arguments).run = reportScan (String.ofList (unifyNewlines text.toList)) o := by
  have hreport : (serve files r).run = reportInput o (files.read o.input).run := by
    rw [serve, Id.run_bind, hoptions]
    simp only [hlist, Bool.false_eq_true, if_false, Id.run_bind, Id.run_pure]
  have hrun : run files arguments = serve files r := by rw [run, harguments]
  rw [hrun, hreport, hfile, reportInput, Utf8.decode_toUTF8]

/-! ### Workspaces -/

namespace Server.Workspace

/-- A workspace that gives back the text just stored. -/
structure Faithful {σ : Type} (w : Workspace σ) : Prop where
  text_store : ∀ (s : σ) (n : Notice), w.text (w.store s n) n.uri = n.text

theorem ofNotices_faithful : ofNotices.Faithful := by
  refine ⟨fun notices n => ?_⟩
  simp only [ofNotices, List.find?_cons, decide_true, Option.map_some, Option.getD_some]

end Server.Workspace

variable {σ : Type} {w : Workspace σ}

theorem handle_publishes (hw : w.Faithful) (s : σ) (n : Notice) :
    (w.handle s n).2 = [⟨n.uri, diagnose n.uri n.text⟩] := by
  rw [Workspace.handle, Workspace.publish, hw.text_store]

/-! ### Agreement -/

/-- A run on a file that holds a text returns 1 if and only if the answer to a notice of the text has a diagnostic,
    and then it prints the error with the message of the diagnostic, one line and one character further, as lines
    and columns count from 1. -/
theorem run_agrees_with_server (harguments : parseArguments arguments = .ok r)
    (hoptions : (resolveOptions files r).run = .ok o) (hlist : o.listTransforms = false)
    (hfile : (files.read o.input).run = .ok text.toUTF8.data.toList) (hpaired : PairedReturns text.toList)
    (hw : w.Faithful) (s : σ) {notice : Notice} (hnotice : notice = .opened uri text ∨ notice = .changed uri text) :
    ∃ diagnostics, (w.handle s notice).2 = [⟨uri, diagnostics⟩] ∧
      ((run files arguments).run.ending = .returned 1 ↔ diagnostics ≠ []) ∧
      ((run files arguments).run.ending = .returned 0 ↔ diagnostics = []) ∧
      ∀ d ∈ diagnostics, ∃ e : LocatedError, e.isScanError = true ∧ e.message = d.message ∧
        e.pos.line = d.start.line + 1 ∧ e.pos.column = d.start.character + 1 ∧
        let source := String.ofList (unifyNewlines text.toList)
        (scanSource source o).result = .error e ∧
          (run files arguments).run.errors = (scanSource source o).trace ++ e.snippet source ++ "\n" := by
  have hanswer : (w.handle s notice).2 = [⟨uri, diagnose uri text⟩] := by
    rw [handle_publishes hw]
    rcases hnotice with rfl | rfl <;> rfl
  refine ⟨diagnose uri text, hanswer, ?_⟩
  have hsame := report_unifyNewlines hpaired (fileName uri) o.input.text
  rw [run_of_file harguments hoptions hlist hfile, diagnose]
  cases hserver : Token.finalError? (tokenize text (fileName uri)) with
  | none =>
    rw [hserver, Option.map_none] at hsame
    have hnone := Option.map_eq_none_iff.mp hsame.symm
    simp [reportScan_of_no_error hnone]
  | some t =>
    rw [hserver, Option.map_some] at hsame
    obtain ⟨u, hu, hreport⟩ := Option.map_eq_some_iff.mp hsame.symm
    obtain ⟨hresult, hending, herrors⟩ := reportScan_of_finalError hu
    simp only [Token.report, Prod.mk.injEq] at hreport
    obtain ⟨hvalue, hline, hcolumn⟩ := hreport
    refine ⟨by simp [hending], by simp [hending], fun d hd => ?_⟩
    obtain rfl : d = Diagnostic.ofToken t := by simpa using hd
    refine ⟨.ofScan u.value u.pos, rfl, hvalue, ?_, ?_, hresult, herrors⟩
    · show u.pos.line = t.pos.line - 1 + 1
      omega
    · show u.pos.column = t.pos.column - 1 + 1
      omega

/-- The server's literal ends before the line feed, and that of the run behind the symbol on the next line. -/
theorem run_agrees_with_server_behind_backslash :
    (run (Directory.reader ⟨[(["f.clj"], "\\\r\na |".toUTF8.data.toList)]⟩) ["f.clj"]).run.ending = .returned 1 ∧
      (Workspace.ofNotices.handle [] (.changed "file:///f.clj" "\\\r\na |")).2 =
        [⟨"file:///f.clj", [⟨⟨1, 2⟩, ⟨1, 3⟩, "unrecognized token starting with |", 1, "cljformat"⟩]⟩] := by
  have hanswer : (Workspace.ofNotices.handle [] (.changed "file:///f.clj" "\\\r\na |")).2 =
      [⟨"file:///f.clj", [⟨⟨1, 2⟩, ⟨1, 3⟩, "unrecognized token starting with |", 1, "cljformat"⟩]⟩] := by
    decide +kernel
  have hoptions : ∃ o, (resolveOptions (Directory.reader ⟨[(["f.clj"], "\\\r\na |".toUTF8.data.toList)]⟩)
      ⟨"f.clj", none, [], false, false, false⟩).run = .ok o ∧ o.listTransforms = false ∧ o.input = .ofString "f.clj" :=
    ⟨_, rfl, rfl, rfl⟩
  obtain ⟨o, hoptions, hlist, hinput⟩ := hoptions
  have hfile : ((Directory.reader ⟨[(["f.clj"], "\\\r\na |".toUTF8.data.toList)]⟩).read o.input).run =
      .ok "\\\r\na |".toUTF8.data.toList := by
    rw [hinput]
    rfl
  have harguments : parseArguments ["f.clj"] = .ok ⟨"f.clj", none, [], false, false, false⟩ := rfl
  obtain ⟨diagnostics, hpublished, hending, -⟩ := run_agrees_with_server harguments hoptions hlist hfile (by decide)
    Workspace.ofNotices_faithful [] (.inr rfl : _ ∨ Notice.changed "file:///f.clj" _ = _)
  refine ⟨hending.mpr ?_, hanswer⟩
  rw [hanswer] at hpublished
  rintro rfl
  cases hpublished

end ClojureLayout
