import ClojureLayout.CommandLine.Run
import ClojureLayout.Proofs.Scanner.Places

/-! What a run of the program comes to. A run that the arguments ask for resolves the options, and then lists the
    settings or reads the input and scans its text (`Served`). From this follows what its code, what it prints on
    either stream and which files it reads say about each other (`Outcome`). -/

namespace ClojureLayout
open CommandLine Text

/-! ### Reads on record -/

/-- Reads files as `files` does, and keeps a record of the paths. -/
def CommandLine.FileReader.recorded (files : FileReader Id) : FileReader (StateM (List Path)) where
  read path := do
    modify (· ++ [path])
    return (files.read path).run

/-- The file at the path holds the text: its bytes are UTF-8, and each line end is read as one line feed. -/
def CommandLine.FileReader.HoldsText (files : FileReader Id) (path : Path) (text : String) : Prop :=
  ∃ bytes cs, (files.read path).run = .ok bytes ∧ Utf8.decode bytes = .ok cs ∧ text = String.ofList (unifyNewlines cs)

variable {files : FileReader Id} {arguments : List String} {r : Request} {o : Options} {report : Report}
  {paths : List Path} {text : String} {code : Nat} {bytes : List UInt8}

namespace CommandLine

theorem FileReader.HoldsText.unique {path : Path} (h : files.HoldsText path text) {text' : String}
    (h' : files.HoldsText path text') : text' = text := by
  obtain ⟨bytes, cs, hread, hdecode, rfl⟩ := h
  obtain ⟨bytes', cs', hread', hdecode', rfl⟩ := h'
  rw [hread] at hread'
  cases hread'
  rw [hdecode] at hdecode'
  cases hdecode'
  rfl

/-- The options are those of the request. -/
structure Options.Of (o : Options) (r : Request) : Prop where
  input : o.input = .ofString r.input
  printTokens : o.printTokens = r.printTokens
  listTransforms : o.listTransforms = r.listTransforms
  debug : o.debug = r.debug

theorem optionsOf_ok {config : Config.Table} (h : optionsOf r config = .ok o) : o.Of r := by
  unfold optionsOf at h
  split at h
  · cases h
  · cases h
  · cases h
    exact ⟨rfl, rfl, rfl, rfl⟩

theorem resolveOptions_run (files : FileReader Id) (r : Request) :
    (resolveOptions files r).run = configOf (files.read (configPath r)).run >>= optionsOf r := rfl

theorem resolveOptions_ok (h : (resolveOptions files r).run = .ok o) : o.Of r := by
  rw [resolveOptions_run] at h
  cases hconfig : configOf (files.read (configPath r)).run with
  | error fault =>
    rw [hconfig] at h
    cases h
  | ok config =>
    rw [hconfig] at h
    exact optionsOf_ok h

/-- What a request comes to: the report, and the paths read for it. -/
inductive Served (files : FileReader Id) (r : Request) : Report → List Path → Prop
  | faulty {fault : OptionsFault} (hoptions : (resolveOptions files r).run = .error fault) :
      Served files r (reportFault fault) [configPath r]
  | listed {o : Options} (hoptions : (resolveOptions files r).run = .ok o) (hlist : r.listTransforms = true) :
      Served files r { output := settingsListing o.settings, ending := .returned 0 } [configPath r]
  | unread {o : Options} {fault : FileFault} (hoptions : (resolveOptions files r).run = .ok o)
      (hlist : r.listTransforms = false) (hread : (files.read (.ofString r.input)).run = .error fault) :
      Served files r (reportInput o (.error fault)) [configPath r, .ofString r.input]
  | undecoded {o : Options} {bytes : List UInt8} {fault : Utf8.Fault} (hoptions : (resolveOptions files r).run = .ok o)
      (hlist : r.listTransforms = false) (hread : (files.read (.ofString r.input)).run = .ok bytes)
      (hdecode : Utf8.decode bytes = .error fault) :
      Served files r (refusal fault.message) [configPath r, .ofString r.input]
  | scanned {o : Options} {text : String} (hoptions : (resolveOptions files r).run = .ok o)
      (hlist : r.listTransforms = false) (htext : files.HoldsText (.ofString r.input) text) :
      Served files r (reportScan text o) [configPath r, .ofString r.input]

theorem serve_run (files : FileReader Id) (r : Request) : (serve files r).run =
    match (resolveOptions files r).run with
    | .error fault => reportFault fault
    | .ok o =>
      if o.listTransforms then { output := settingsListing o.settings, ending := .returned 0 }
      else reportInput o (files.read o.input).run := by
  rw [serve, Id.run_bind]
  cases (resolveOptions files r).run with
  | error fault => rfl
  | ok o => cases hlist : o.listTransforms <;> simp only [hlist] <;> rfl

/-- The record does not change the report. -/
theorem serve_recorded (files : FileReader Id) (r : Request) : ((serve files.recorded r).run []).run =
    ((serve files r).run, configPath r ::
      match (resolveOptions files r).run with
      | .error _ => []
      | .ok o => if o.listTransforms then [] else [o.input]) := by
  have hresolve : (resolveOptions files.recorded r).run [] = pure ((resolveOptions files r).run, [configPath r]) := rfl
  rw [serve, StateT.run_bind, hresolve, pure_bind, serve_run]
  cases (resolveOptions files r).run with
  | error fault => rfl
  | ok o => cases hlist : o.listTransforms <;> simp only [hlist] <;> rfl

/-- What a run does on a request that the arguments ask for. -/
theorem run_served (harguments : parseArguments arguments = .ok r) : ∃ paths,
    ((run files.recorded arguments).run []).run = ((run files arguments).run, paths) ∧
      Served files r (run files arguments).run paths := by
  simp only [run, harguments]
  refine ⟨_, serve_recorded files r, ?_⟩
  rw [serve_run]
  cases hoptions : (resolveOptions files r).run with
  | error fault => exact .faulty hoptions
  | ok o =>
    have hof := resolveOptions_ok hoptions
    cases hlist : r.listTransforms with
    | true =>
      simp only [hof.listTransforms, hlist, if_true]
      exact .listed hoptions hlist
    | false =>
      simp only [hof.listTransforms, hlist, Bool.false_eq_true, if_false, hof.input]
      cases hread : (files.read (.ofString r.input)).run with
      | error fault => exact .unread hoptions hlist hread
      | ok bytes =>
        cases hdecode : Utf8.decode bytes with
        | error fault =>
          simp only [reportInput, hdecode]
          exact .undecoded hoptions hlist hread hdecode
        | ok cs =>
          simp only [reportInput, hdecode]
          exact .scanned hoptions hlist ⟨bytes, cs, hread, hdecode, rfl⟩

end CommandLine

/-! ### What is printed -/

theorem head_append {s : String} {c : Char} (h : s.toList.head? = some c) (later : String) :
    (s ++ later).toList.head? = some c := by
  rw [String.toList_append, List.head?_append, h]
  rfl

namespace Token

theorem text_head (t : Token) : t.text.toList.head? = some '<' := by
  have hbracket (later : String) : ("<" ++ later).toList.head? = some '<' := head_append (by decide) later
  simp only [text, String.append_assoc]
  split <;> exact hbracket _

/-- A dump of tokens begins with an angle bracket. -/
theorem listing_head (t : Token) (ts : List Token) : (listing (t :: ts)).toList.head? = some '<' := by
  rw [listing, List.map_cons, String.join_cons, String.append_assoc]
  exact head_append t.text_head _

end Token

namespace CommandLine

theorem snippet_head (message : String) (pos : Position) (source : String) :
    ((LocatedError.ofScan message pos).snippet source).toList.head? = some 'l' := by
  have htag : LocatedError.scanTag.toList.head? = some 'l' := by decide
  unfold LocatedError.snippet
  simp only [String.append_assoc]
  exact head_append htag _

/-- The tokens of a text under the name of the input. -/
def Request.tokens (r : Request) (text : String) : List Token := tokenize text (Path.ofString r.input).text

/-- The tokens as they are shown while working, if that is asked for. -/
def Request.dump (r : Request) (text : String) : String := if r.debug then Token.listing (r.tokens text) else ""

theorem reportScan_error (hof : o.Of r) {t : Token} (h : Token.finalError? (r.tokens text) = some t) :
    reportScan text o =
      { errors := r.dump text ++ (LocatedError.ofScan t.value t.pos).snippet text ++ "\n"
        ending := .returned 1 } := by
  rw [Request.tokens] at h
  simp only [reportScan, scanSource, hof.input, hof.debug, h]
  rfl

theorem reportScan_clean (hof : o.Of r) (h : Token.finalError? (r.tokens text) = none) :
    reportScan text o =
      { output := if r.printTokens then Token.listing (r.tokens text) else ""
        errors := r.dump text
        ending := .returned 0 } := by
  rw [Request.tokens] at h
  simp only [reportScan, scanSource, hof.input, hof.debug, hof.printTokens, h]
  rfl

/-! ### Codes and streams -/

/-- The run scans the text: the options are resolved, no listing is asked for and the input holds the text. -/
def Scans (files : FileReader Id) (r : Request) (text : String) : Prop :=
  (∃ o, (resolveOptions files r).run = .ok o) ∧ r.listTransforms = false ∧ files.HoldsText (.ofString r.input) text

/-- The run is refused: the options cannot be resolved, or the input is wanted and holds no text. -/
def Refused (files : FileReader Id) (r : Request) : Prop :=
  (∃ fault, (resolveOptions files r).run = .error fault) ∨
    r.listTransforms = false ∧ ∀ text, ¬ files.HoldsText (.ofString r.input) text

/-- What the code of a run, its two streams and the paths it reads say about each other. -/
structure Outcome (files : FileReader Id) (r : Request) (report : Report) (paths : List Path) (code : Nat) : Prop where
  refused : code = 2 ↔ Refused files r
  message : code = 2 → ∃ message, report.errors = "error: " ++ message ++ "\n"
  /-- A listing has one line for each transform, and the input is not read for it. -/
  listed : ∀ o, (resolveOptions files r).run = .ok o → r.listTransforms = true → code = 0 ∧ report.errors = "" ∧
    report.output = String.join (Transform.all.map fun t => t.name ++ (if o.settings t then " on\n" else " off\n")) ∧
    (∀ t, Transform.all.count t = 1) ∧ paths = [configPath r]
  scanned : ∀ text, Scans files r text → (code = 1 ↔ ∃ t ∈ (r.tokens text).getLast?, t.kind = .error) ∧
    (code = 0 ↔ ¬ ∃ t ∈ (r.tokens text).getLast?, t.kind = .error)
  output : code ≠ 0 → report.output = ""
  dumped : code = 0 → ∀ text, Scans files r text →
    report.output = if r.printTokens then Token.listing (r.tokens text) else ""
  /-- On the stream for errors the dump comes first, and the error that ends the tokens behind it. -/
  errors : ∀ text, Scans files r text → (code = 0 → report.errors = r.dump text) ∧ (code = 1 →
    ∃ t ∈ (r.tokens text).getLast?, report.errors = r.dump text ++ (LocatedError.ofScan t.value t.pos).snippet text ++ "\n")
  /-- In no other case does it begin with a dump of tokens. -/
  debugged : (∃ ts ≠ [], (Token.listing ts).toList <+: report.errors.toList) ↔ r.debug = true ∧ ∃ text, Scans files r text

theorem Refused.holds_no_text (h : Refused files r) (hoptions : (resolveOptions files r).run = .ok o) :
    r.listTransforms = false ∧ ∀ text, ¬ files.HoldsText (.ofString r.input) text := by
  rcases h with ⟨fault, hfault⟩ | h
  · rw [hoptions] at hfault
    cases hfault
  · exact h

theorem Scans.not_refused (h : Scans files r text) : ¬ Refused files r := fun hrefused => by
  obtain ⟨⟨o, hoptions⟩, -, htext⟩ := h
  exact (hrefused.holds_no_text hoptions).2 text htext

theorem Scans.unique (h : Scans files r text) {text' : String} (h' : Scans files r text') : text' = text :=
  h.2.2.unique h'.2.2

theorem not_scans_of_list (hlist : r.listTransforms = true) : ¬ Scans files r text := fun h => by
  rw [h.2.1] at hlist
  cases hlist

theorem not_refused_of_list (hoptions : (resolveOptions files r).run = .ok o) (hlist : r.listTransforms = true) :
    ¬ Refused files r := fun h => by
  rw [(h.holds_no_text hoptions).1] at hlist
  cases hlist

theorem refused_of_unread {fault : FileFault} (hlist : r.listTransforms = false)
    (hread : (files.read (.ofString r.input)).run = .error fault) : Refused files r := by
  refine .inr ⟨hlist, ?_⟩
  rintro text ⟨bytes, cs, hbytes, -⟩
  rw [hread] at hbytes
  cases hbytes

theorem refused_of_undecoded {fault : Utf8.Fault} (hlist : r.listTransforms = false)
    (hread : (files.read (.ofString r.input)).run = .ok bytes) (hdecode : Utf8.decode bytes = .error fault) :
    Refused files r := by
  refine .inr ⟨hlist, ?_⟩
  rintro text ⟨bytes', cs, hbytes, hcs, -⟩
  rw [hread] at hbytes
  cases hbytes
  rw [hdecode] at hcs
  cases hcs

/-- What does not begin with an angle bracket begins with no dump of tokens. -/
theorem not_dump {errors : String} (h : errors.toList.head? ≠ some '<') :
    ¬ ∃ ts ≠ [], (Token.listing ts).toList <+: errors.toList := by
  rintro ⟨_ | ⟨t, ts⟩, hne, later, hprefix⟩
  · exact hne rfl
  · rw [← hprefix, List.head?_append, Token.listing_head] at h
    exact h rfl

theorem finalError?_eq_some_iff {ts : List Token} {t : Token} :
    Token.finalError? ts = some t ↔ t ∈ ts.getLast? ∧ t.kind = .error := by
  simp [Token.finalError?, Option.filter_eq_some_iff]

theorem finalError?_eq_none_iff {ts : List Token} :
    Token.finalError? ts = none ↔ ¬ ∃ t ∈ ts.getLast?, t.kind = .error := by
  simp [Token.finalError?, Option.filter_eq_none_iff]

theorem Outcome.of_refused (h : Refused files r) (message : String) (paths : List Path) :
    Outcome files r (refusal message) paths 2 where
  refused := iff_of_true rfl h
  message _ := ⟨message, rfl⟩
  listed _ ho hlist := absurd h (not_refused_of_list ho hlist)
  scanned _ hscans := absurd h hscans.not_refused
  output _ := rfl
  dumped hcode := by cases hcode
  errors _ hscans := absurd h hscans.not_refused
  debugged := iff_of_false (not_dump (by simp [refusal])) fun ⟨_, _, hscans⟩ => hscans.not_refused h

theorem Outcome.of_listed (hoptions : (resolveOptions files r).run = .ok o) (hlist : r.listTransforms = true) :
    Outcome files r { output := settingsListing o.settings, ending := .returned 0 } [configPath r] 0 where
  refused := iff_of_false (by decide) (not_refused_of_list hoptions hlist)
  message hcode := by cases hcode
  listed o' ho' _ := by
    rw [hoptions] at ho'
    cases ho'
    exact ⟨rfl, rfl, rfl, fun t => by cases t <;> rfl, rfl⟩
  scanned _ hscans := absurd hscans (not_scans_of_list hlist)
  output hcode := absurd rfl hcode
  dumped _ _ hscans := absurd hscans (not_scans_of_list hlist)
  errors _ hscans := absurd hscans (not_scans_of_list hlist)
  debugged := iff_of_false (not_dump (by simp)) fun ⟨_, _, hscans⟩ => not_scans_of_list hlist hscans

/-- The stream for errors begins with a dump if the text is scanned and the dump is asked for. -/
theorem debugged_iff (hscans : Scans files r text) {later : String} (hlater : later.toList.head? ≠ some '<') :
    (∃ ts ≠ [], (Token.listing ts).toList <+: (r.dump text ++ later).toList) ↔
      r.debug = true ∧ ∃ text, Scans files r text := by
  cases hdebug : r.debug with
  | false =>
    have hdump : r.dump text = "" := by rw [Request.dump, hdebug]; rfl
    rw [hdump, String.empty_append]
    exact iff_of_false (not_dump hlater) fun h => by cases h.1
  | true =>
    have hdump : r.dump text = Token.listing (r.tokens text) := by rw [Request.dump, hdebug]; rfl
    rw [hdump, String.toList_append]
    exact iff_of_true ⟨_, (tokens_tokenize text _).ne_nil, List.prefix_append _ _⟩ ⟨rfl, text, hscans⟩

theorem Outcome.of_error (hof : o.Of r) (hscans : Scans files r text) (paths : List Path) {t : Token}
    (ht : Token.finalError? (r.tokens text) = some t) : Outcome files r (reportScan text o) paths 1 := by
  obtain ⟨hlast, hkind⟩ := finalError?_eq_some_iff.mp ht
  have herror : ∃ t ∈ (r.tokens text).getLast?, t.kind = .error := ⟨t, hlast, hkind⟩
  rw [reportScan_error hof ht]
  exact {
    refused := iff_of_false (by decide) hscans.not_refused
    message := fun hcode => by cases hcode
    listed := fun _ _ hlist => absurd hscans (not_scans_of_list hlist)
    scanned := fun text' hscans' => by
      rw [hscans.unique hscans']
      exact ⟨iff_of_true rfl herror, iff_of_false (by decide) (not_not_intro herror)⟩
    output := fun _ => rfl
    dumped := fun hcode => by cases hcode
    errors := fun text' hscans' => by
      rw [hscans.unique hscans']
      exact ⟨fun hcode => (by cases hcode), fun _ => ⟨t, hlast, rfl⟩⟩
    debugged := by
      rw [String.append_assoc]
      refine debugged_iff hscans ?_
      rw [head_append (snippet_head t.value t.pos text)]
      decide }

theorem Outcome.of_no_error (hof : o.Of r) (hscans : Scans files r text) (paths : List Path)
    (hnone : Token.finalError? (r.tokens text) = none) : Outcome files r (reportScan text o) paths 0 := by
  have hclean := finalError?_eq_none_iff.mp hnone
  rw [reportScan_clean hof hnone]
  exact {
    refused := iff_of_false (by decide) hscans.not_refused
    message := fun hcode => by cases hcode
    listed := fun _ _ hlist => absurd hscans (not_scans_of_list hlist)
    scanned := fun text' hscans' => by
      rw [hscans.unique hscans']
      exact ⟨iff_of_false (by decide) hclean, iff_of_true rfl hclean⟩
    output := fun hcode => absurd rfl hcode
    dumped := fun _ text' hscans' => by rw [hscans.unique hscans']
    errors := fun text' hscans' => by
      rw [hscans.unique hscans']
      exact ⟨fun _ => rfl, fun hcode => by cases hcode⟩
    debugged := by
      have h := debugged_iff hscans (show "".toList.head? ≠ some '<' by simp)
      rwa [String.append_empty] at h }

theorem Served.outcome (h : Served files r report paths) (hcode : report.ending = .returned code) :
    Outcome files r report paths code := by
  cases h with
  | @faulty fault hoptions =>
    have hrefused : Refused files r := .inl ⟨fault, hoptions⟩
    cases fault with
    | settings fault =>
      cases hcode
      exact .of_refused hrefused _ _
    | malformedConfig =>
      cases hcode
      exact .of_refused hrefused _ _
    | crash c => cases hcode
  | listed hoptions hlist =>
    cases hcode
    exact .of_listed hoptions hlist
  | @unread o fault hoptions hlist hread =>
    have hrefused := refused_of_unread hlist hread
    cases fault with
    | nulInPath => cases hcode
    | _ =>
      cases hcode
      exact .of_refused hrefused _ _
  | undecoded hoptions hlist hread hdecode =>
    cases hcode
    exact .of_refused (refused_of_undecoded hlist hread hdecode) _ _
  | @scanned o text hoptions hlist htext =>
    have hof := resolveOptions_ok hoptions
    have hscans : Scans files r text := ⟨⟨o, hoptions⟩, hlist, htext⟩
    cases herror : Token.finalError? (r.tokens text) with
    | none =>
      rw [reportScan_clean hof herror] at hcode
      cases hcode
      exact .of_no_error hof hscans _ herror
    | some t =>
      rw [reportScan_error hof herror] at hcode
      cases hcode
      exact .of_error hof hscans _ herror

/-- A run that returns a code has the outcome that its options, its input and the tokens of the input call for. -/
theorem run_outcome (harguments : parseArguments arguments = .ok r)
    (hcode : (run files arguments).run.ending = .returned code) : ∃ paths,
    ((run files.recorded arguments).run []).run = ((run files arguments).run, paths) ∧
      Outcome files r (run files arguments).run paths code := by
  obtain ⟨paths, hrecorded, hserved⟩ := run_served harguments
  exact ⟨paths, hrecorded, hserved.outcome hcode⟩

/-- The tokens are shown as they are worked on, and not as a result, since an error ends them. -/
theorem run_outcome_behind_symbol :
    (run (Directory.reader ⟨[(["a.clj"], "x |".toUTF8.data.toList)]⟩) ["--debug", "--tokens", "a.clj"]).run =
      { errors := "<symbol@a.clj:1:1>('x')\n<error@a.clj:1:3>('unrecognized token starting with |')\n" ++
          "lex error: unrecognized token starting with |\n  --> a.clj:1:3\n  |\n1 | x |\n  |   ^\n"
        ending := .returned 1 } ∧
    ∃ paths, Outcome (Directory.reader ⟨[(["a.clj"], "x |".toUTF8.data.toList)]⟩)
      { input := "a.clj", printTokens := true, debug := true }
      (run (Directory.reader ⟨[(["a.clj"], "x |".toUTF8.data.toList)]⟩) ["--debug", "--tokens", "a.clj"]).run paths 1 := by
  have hrun : (run (Directory.reader ⟨[(["a.clj"], "x |".toUTF8.data.toList)]⟩) ["--debug", "--tokens", "a.clj"]).run =
      { errors := "<symbol@a.clj:1:1>('x')\n<error@a.clj:1:3>('unrecognized token starting with |')\n" ++
          "lex error: unrecognized token starting with |\n  --> a.clj:1:3\n  |\n1 | x |\n  |   ^\n"
        ending := .returned 1 } := by decide +kernel
  have harguments : parseArguments ["--debug", "--tokens", "a.clj"] =
      .ok { input := "a.clj", printTokens := true, debug := true } := rfl
  obtain ⟨paths, -, houtcome⟩ := run_outcome harguments (congrArg Report.ending hrun)
  exact ⟨hrun, paths, houtcome⟩

end CommandLine
end ClojureLayout
