import ClojureLayout.Proofs.CommandLine.Outcome

/-! When a run breaks down. The program is prepared for most of what can be wrong with its two files and answers it
    with the code 2; the faults that it is not prepared for are the cases of `Unprepared`. But for these every run
    that the arguments ask for returns a code, and whatever hinders its work gives 2 and a message. -/

namespace ClojureLayout
open Text

/-! ### Work that fails at a step -/

section Except
variable {α β ε : Type} {e : ε}

theorem bind_eq_error_iff {x : Except ε α} {f : α → Except ε β} :
    (x >>= f) = .error e ↔ x = .error e ∨ ∃ a, x = .ok a ∧ f a = .error e := by
  cases x <;> simp [bind, Except.bind]

theorem bind_eq_ok_iff {x : Except ε α} {f : α → Except ε β} {b : β} :
    (x >>= f) = .ok b ↔ ∃ a, x = .ok a ∧ f a = .ok b := by
  cases x <;> simp [bind, Except.bind]

/-- A fold fails at the first element at which it cannot go on. -/
theorem foldlM_eq_error_iff {f : β → α → Except ε β} (xs : List α) (acc : β) :
    xs.foldlM f acc = .error e ↔
      ∃ before x after last, xs = before ++ x :: after ∧ before.foldlM f acc = .ok last ∧ f last x = .error e := by
  induction xs generalizing acc with
  | nil => simp [pure, Except.pure]
  | cons x xs ih =>
    rw [List.foldlM_cons, bind_eq_error_iff]
    constructor
    · rintro (hx | ⟨next, hx, hxs⟩)
      · exact ⟨[], x, xs, acc, rfl, rfl, hx⟩
      · obtain ⟨before, y, after, last, rfl, hbefore, hy⟩ := (ih next).mp hxs
        refine ⟨x :: before, y, after, last, rfl, ?_, hy⟩
        rw [List.foldlM_cons, hx]
        exact hbefore
    · rintro ⟨_ | ⟨z, before⟩, y, after, last, hxs, hbefore, hy⟩
      · cases hbefore
        cases hxs
        exact Or.inl hy
      · cases hxs
        rw [List.foldlM_cons] at hbefore
        cases hx : f acc x with
        | error e' =>
          rw [hx] at hbefore
          cases hbefore
        | ok next =>
          rw [hx] at hbefore
          exact Or.inr ⟨next, rfl, (ih next).mpr ⟨before, y, after, last, rfl, hbefore, hy⟩⟩

end Except

/-! ### Settings that cannot be resolved -/

namespace Config

/-- The entry names a transform, and its value is neither true nor false and cannot even be shown. -/
def Unshowable (entry : String × Value) : Prop :=
  Transform.ofName? entry.1 ≠ none ∧ (∀ on, entry.2 ≠ .bool on) ∧ entry.2.isWritable = false

theorem applyEntry_eq_unwritable_iff {s : Settings} {entry : String × Value} :
    (∃ key, applyEntry s entry = .error (.unwritable key)) ↔ Unshowable entry := by
  obtain ⟨name, value⟩ := entry
  unfold applyEntry Unshowable
  cases Transform.ofName? name with
  | none => simp
  | some t =>
    cases value with
    | bool on => simp
    | _ =>
      simp only [Except.error.injEq, ne_eq, reduceCtorEq, not_false_eq_true, implies_true, true_and]
      split <;> simp_all

theorem applyOverride_ne_unwritable (s : Settings) (override key : String) :
    applyOverride s override ≠ .error (.unwritable key) := by
  have hname (name : String) : parseName name ≠ .error (.unwritable key) := by
    unfold parseName
    split <;> simp
  have honOff (value : String) : parseOnOff value ≠ .error (.unwritable key) := by
    simp only [parseOnOff]
    split
    · simp
    · split <;> simp
  intro h
  rcases bind_eq_error_iff.mp h with h | ⟨_, _, h⟩
  · simp only [parseOverride] at h
    split at h
    · rcases bind_eq_error_iff.mp h with h | ⟨_, _, h⟩
      · exact hname _ h
      · rcases bind_eq_error_iff.mp h with h | ⟨_, _, h⟩
        · exact honOff _ h
        · cases h
    · cases h
  · cases h

/-- An entry that cannot be shown stops the settings if it is the first that is wrong. -/
theorem resolveSettings_eq_unwritable_iff {config : Table} {overrides : List String} :
    (∃ key, resolveSettings config overrides = .error (.unwritable key)) ↔
      ∃ before entry after s, transformEntries config = before ++ entry :: after ∧
        before.foldlM applyEntry Settings.default = .ok s ∧ Unshowable entry := by
  constructor
  · rintro ⟨key, h⟩
    rcases bind_eq_error_iff.mp h with h | ⟨s, -, h⟩
    · obtain ⟨before, entry, after, s, hentries, hbefore, hentry⟩ := (foldlM_eq_error_iff _ _).mp h
      exact ⟨before, entry, after, s, hentries, hbefore, applyEntry_eq_unwritable_iff.mp ⟨key, hentry⟩⟩
    · obtain ⟨_, override, _, s, -, -, hoverride⟩ := (foldlM_eq_error_iff _ _).mp h
      exact absurd hoverride (applyOverride_ne_unwritable s override key)
  · rintro ⟨before, entry, after, s, hentries, hbefore, hentry⟩
    obtain ⟨key, hkey⟩ := applyEntry_eq_unwritable_iff.mpr hentry
    exact ⟨key, bind_eq_error_iff.mpr <| .inl <|
      (foldlM_eq_error_iff _ _).mpr ⟨before, entry, after, s, hentries, hbefore, hkey⟩⟩

end Config

namespace CommandLine

variable {files : FileReader Id} {arguments : List String} {r : Request} {c : Crash} {report : Report}
  {paths : List Path}

/-! ### Faults that the program is not prepared for -/

/-- A fault of the two files that the program is not prepared for. -/
inductive Unprepared (files : FileReader Id) (r : Request) : Crash → Prop
  /-- The configuration file is there and cannot be read, or its name cannot be looked up. -/
  | configUnread {fault : FileFault} (hread : (files.read (configPath r)).run = .error fault)
      (hpresent : fault.isAbsence = false) : Unprepared files r (.file fault)
  | configUndecoded {bytes : List UInt8} {fault : Utf8.Fault} (hread : (files.read (configPath r)).run = .ok bytes)
      (hdecode : Utf8.decode bytes = .error fault) : Unprepared files r (.undecodable fault)
  /-- A whole number of the configuration has too many digits to be read. -/
  | numberRead {bytes : List UInt8} {cs : List Char} {count : Nat} (hread : (files.read (configPath r)).run = .ok bytes)
      (hdecode : Utf8.decode bytes = .ok cs) (hparse : Config.Toml.parse cs = .error (.tooManyDigits count)) :
      Unprepared files r (.tooManyDigits (some count))
  /-- The value of a transform is refused, and a whole number in it has too many digits to be shown. -/
  | numberShown {config : Config.Table} {before after : Config.Table} {entry : String × Config.Value} {s : Settings}
      (hconfig : configOf (files.read (configPath r)).run = .ok config)
      (hentries : Config.transformEntries config = before ++ entry :: after)
      (hbefore : before.foldlM Config.applyEntry Settings.default = .ok s) (hentry : Config.Unshowable entry) :
      Unprepared files r (.tooManyDigits none)
  | inputPath {o : Options} (hoptions : (resolveOptions files r).run = .ok o) (hlist : r.listTransforms = false)
      (hread : (files.read (.ofString r.input)).run = .error .nulInPath) : Unprepared files r (.file .nulInPath)

/-- Something hinders the work that a request asks for: one of the two files cannot be read or decoded, or the
    configuration cannot be understood. -/
inductive Hindered (files : FileReader Id) (r : Request) : Prop
  | configUnread {fault : FileFault} (hread : (files.read (configPath r)).run = .error fault)
      (hpresent : fault.isAbsence = false)
  | configUndecoded {bytes : List UInt8} {fault : Utf8.Fault} (hread : (files.read (configPath r)).run = .ok bytes)
      (hdecode : Utf8.decode bytes = .error fault)
  | configMalformed {bytes : List UInt8} {cs : List Char} {fault : Config.Toml.Fault}
      (hread : (files.read (configPath r)).run = .ok bytes) (hdecode : Utf8.decode bytes = .ok cs)
      (hparse : Config.Toml.parse cs = .error fault)
  | settings {config : Config.Table} {fault : Config.SettingsFault}
      (hconfig : configOf (files.read (configPath r)).run = .ok config)
      (hsettings : Config.resolveSettings config r.overrides = .error fault)
  | inputUnread {fault : FileFault} (hlist : r.listTransforms = false)
      (hread : (files.read (.ofString r.input)).run = .error fault)
  | inputUndecoded {bytes : List UInt8} {fault : Utf8.Fault} (hlist : r.listTransforms = false)
      (hread : (files.read (.ofString r.input)).run = .ok bytes) (hdecode : Utf8.decode bytes = .error fault)

theorem optionsOf_eq_crash_iff {config : Config.Table} : optionsOf r config = .error (.crash c) ↔
    c = .tooManyDigits none ∧ ∃ key, Config.resolveSettings config r.overrides = .error (.unwritable key) := by
  unfold optionsOf
  split
  · next key hsettings => simp [hsettings, eq_comm]
  · next fault hne hsettings =>
    have hno : ¬ ∃ key, Config.resolveSettings config r.overrides = .error (.unwritable key) := by
      rintro ⟨key, hkey⟩
      rw [hsettings] at hkey
      exact hne key (Except.error.inj hkey)
    simp [hno]
  · next settings hsettings => simp [hsettings]

theorem decodeConfig_eq_crash_iff {bytes : List UInt8} : decodeConfig bytes = .error (.crash c) ↔
    (∃ fault, Utf8.decode bytes = .error fault ∧ c = .undecodable fault) ∨
      ∃ cs count, Utf8.decode bytes = .ok cs ∧ Config.Toml.parse cs = .error (.tooManyDigits count) ∧
        c = .tooManyDigits (some count) := by
  unfold decodeConfig
  cases Utf8.decode bytes with
  | error fault => simp [eq_comm]
  | ok cs =>
    rcases hparse : Config.Toml.parse cs with (_ | count) | table
    · simp [hparse]
    · simp [hparse, eq_comm]
    · simp [hparse]

theorem resolveOptions_eq_error_iff {fault : OptionsFault} : (resolveOptions files r).run = .error fault ↔
    configOf (files.read (configPath r)).run = .error fault ∨
      ∃ config, configOf (files.read (configPath r)).run = .ok config ∧ optionsOf r config = .error fault := by
  rw [resolveOptions_run]
  exact bind_eq_error_iff

/-- Resolving the options breaks down on the faults of the configuration that are not prepared for. -/
theorem resolveOptions_crash (h : (resolveOptions files r).run = .error (.crash c)) : Unprepared files r c := by
  rcases resolveOptions_eq_error_iff.mp h with h | ⟨config, hconfig, h⟩
  · cases hread : (files.read (configPath r)).run with
    | error fault =>
      rw [hread, configOf] at h
      split at h
      · cases h
      · next hpresent =>
        cases h
        exact .configUnread hread (Bool.eq_false_iff.mpr hpresent)
    | ok bytes =>
      rw [hread, configOf] at h
      rcases decodeConfig_eq_crash_iff.mp h with ⟨fault, hdecode, rfl⟩ | ⟨cs, count, hdecode, hparse, rfl⟩
      · exact .configUndecoded hread hdecode
      · exact .numberRead hread hdecode hparse
  · obtain ⟨rfl, hsettings⟩ := optionsOf_eq_crash_iff.mp h
    obtain ⟨before, entry, after, s, hentries, hbefore, hentry⟩ := Config.resolveSettings_eq_unwritable_iff.mp hsettings
    exact .numberShown hconfig hentries hbefore hentry

theorem Unprepared.crashed (h : Unprepared files r c) : (serve files r).run.ending = .crashed c := by
  have hcrash (hoptions : (resolveOptions files r).run = .error (.crash c)) :
      (serve files r).run.ending = .crashed c := by
    rw [serve_run, hoptions]
    rfl
  cases h with
  | configUnread hread hpresent =>
    refine hcrash (resolveOptions_eq_error_iff.mpr (.inl ?_))
    rw [hread, configOf, hpresent]
    rfl
  | configUndecoded hread hdecode =>
    refine hcrash (resolveOptions_eq_error_iff.mpr (.inl ?_))
    rw [hread]
    exact decodeConfig_eq_crash_iff.mpr (.inl ⟨_, hdecode, rfl⟩)
  | numberRead hread hdecode hparse =>
    refine hcrash (resolveOptions_eq_error_iff.mpr (.inl ?_))
    rw [hread]
    exact decodeConfig_eq_crash_iff.mpr (.inr ⟨_, _, hdecode, hparse, rfl⟩)
  | numberShown hconfig hentries hbefore hentry =>
    refine hcrash (resolveOptions_eq_error_iff.mpr (.inr ⟨_, hconfig, optionsOf_eq_crash_iff.mpr ⟨rfl, ?_⟩⟩))
    exact Config.resolveSettings_eq_unwritable_iff.mpr ⟨_, _, _, _, hentries, hbefore, hentry⟩
  | inputPath hoptions hlist hread =>
    have hof := resolveOptions_ok hoptions
    rw [serve_run, hoptions]
    simp only [hof.listTransforms, hlist, Bool.false_eq_true, if_false, hof.input, hread]
    rfl

/-- A run returns a code, or it breaks down on a fault that is not prepared for. -/
theorem Served.ending (h : Served files r report paths) : (∃ code ≤ 2, report.ending = .returned code) ∨
    ∃ c, report.ending = .crashed c ∧ Unprepared files r c := by
  cases h with
  | @faulty fault hoptions =>
    cases fault with
    | settings fault => exact .inl ⟨2, Nat.le_refl 2, rfl⟩
    | malformedConfig => exact .inl ⟨2, Nat.le_refl 2, rfl⟩
    | crash c => exact .inr ⟨c, rfl, resolveOptions_crash hoptions⟩
  | listed hoptions hlist => exact .inl ⟨0, by decide, rfl⟩
  | @unread o fault hoptions hlist hread =>
    cases fault with
    | nulInPath => exact .inr ⟨_, rfl, .inputPath hoptions hlist hread⟩
    | _ => exact .inl ⟨2, Nat.le_refl 2, rfl⟩
  | undecoded hoptions hlist hread hdecode => exact .inl ⟨2, Nat.le_refl 2, rfl⟩
  | @scanned o text hoptions hlist htext =>
    have hof := resolveOptions_ok hoptions
    cases herror : Token.finalError? (r.tokens text) with
    | none => exact .inl ⟨0, by decide, by rw [reportScan_clean hof herror]⟩
    | some t => exact .inl ⟨1, by decide, by rw [reportScan_error hof herror]⟩

/-- What hinders the work is refused, if the program is prepared for it. -/
theorem Hindered.refused (h : Hindered files r) (hprepared : ∀ c, ¬ Unprepared files r c) : Refused files r := by
  cases h with
  | configUnread hread hpresent => exact absurd (.configUnread hread hpresent) (hprepared _)
  | configUndecoded hread hdecode => exact absurd (.configUndecoded hread hdecode) (hprepared _)
  | @configMalformed bytes cs fault hread hdecode hparse =>
    cases fault with
    | tooManyDigits count => exact absurd (.numberRead hread hdecode hparse) (hprepared _)
    | malformed =>
      refine .inl ⟨.malformedConfig, resolveOptions_eq_error_iff.mpr (.inl ?_)⟩
      rw [hread]
      simp only [configOf, decodeConfig, hdecode, hparse]
  | @settings config fault hconfig hsettings =>
    have hoptions : ∃ fault, optionsOf r config = .error fault := by
      rw [optionsOf, hsettings]
      cases fault <;> exact ⟨_, rfl⟩
    obtain ⟨fault, hoptions⟩ := hoptions
    exact .inl ⟨fault, resolveOptions_eq_error_iff.mpr (.inr ⟨config, hconfig, hoptions⟩)⟩
  | inputUnread hlist hread => exact refused_of_unread hlist hread
  | inputUndecoded hlist hread hdecode => exact refused_of_undecoded hlist hread hdecode

/-- A run breaks down on the faults that are not prepared for. If and only if there is none, it returns 0, 1 or 2,
    and 2 with a message and no output if anything hinders its work. Two limits are set aside: that on calls within
    calls, which the values of a configuration can reach by being nested deeply, and that on what can be printed, as
    arguments are of characters that can be encoded. -/
theorem run_returns_iff (harguments : parseArguments arguments = .ok r) :
    (∀ c, (run files arguments).run.ending = .crashed c ↔ Unprepared files r c) ∧
    ((∃ code ≤ 2, (run files arguments).run.ending = .returned code) ∧
      (Hindered files r → (run files arguments).run.ending = .returned 2 ∧ (run files arguments).run.output = "" ∧
        ∃ message, (run files arguments).run.errors = "error: " ++ message ++ "\n") ↔
      ∀ c, ¬ Unprepared files r c) := by
  obtain ⟨paths, -, hserved⟩ := run_served harguments
  have hcrashed (c : Crash) : (run files arguments).run.ending = .crashed c ↔ Unprepared files r c := by
    constructor
    · intro hcrash
      rcases hserved.ending with ⟨code, -, hcode⟩ | ⟨c', hcrash', hunprepared⟩
      · rw [hcrash] at hcode
        cases hcode
      · rw [hcrash] at hcrash'
        cases hcrash'
        exact hunprepared
    · intro hunprepared
      simp only [run, harguments]
      exact hunprepared.crashed
  refine ⟨hcrashed, ?_, fun hprepared => ?_⟩
  · rintro ⟨⟨code, -, hcode⟩, -⟩ c hunprepared
    rw [(hcrashed c).mpr hunprepared] at hcode
    cases hcode
  · rcases hserved.ending with ⟨code, hle, hcode⟩ | ⟨c, -, hunprepared⟩
    · have houtcome := hserved.outcome hcode
      refine ⟨⟨code, hle, hcode⟩, fun hhindered => ?_⟩
      obtain rfl := houtcome.refused.mpr (hhindered.refused hprepared)
      exact ⟨hcode, houtcome.output (by decide), houtcome.message rfl⟩
    · exact absurd hunprepared (hprepared c)

/-- A configuration that is not well formed hinders a run, and the run is prepared for it. -/
theorem run_returns_on_malformed_config :
    Hindered (Directory.reader ⟨[(["f.clj"], []), (["cljformat.toml"], "x".toUTF8.data.toList)]⟩) { input := "f.clj" } ∧
    (∀ c, ¬ Unprepared (Directory.reader ⟨[(["f.clj"], []), (["cljformat.toml"], "x".toUTF8.data.toList)]⟩)
      { input := "f.clj" } c) ∧
    (run (Directory.reader ⟨[(["f.clj"], []), (["cljformat.toml"], "x".toUTF8.data.toList)]⟩) ["f.clj"]).run.ending =
      .returned 2 := by
  have hparse : Config.Toml.parse ['x'] = .error .malformed := rfl
  have hhindered : Hindered (Directory.reader ⟨[(["f.clj"], []), (["cljformat.toml"], "x".toUTF8.data.toList)]⟩)
      { input := "f.clj" } := .configMalformed rfl rfl hparse
  have hrun : (run (Directory.reader ⟨[(["f.clj"], []), (["cljformat.toml"], "x".toUTF8.data.toList)]⟩)
      ["f.clj"]).run = refusal "invalid config file: not well formed" := by decide +kernel
  have harguments : parseArguments ["f.clj"] = .ok { input := "f.clj" } := rfl
  obtain ⟨hcrashed, hreturns⟩ := @run_returns_iff
    (Directory.reader ⟨[(["f.clj"], []), (["cljformat.toml"], "x".toUTF8.data.toList)]⟩) _ _ harguments
  have hprepared (c : Crash) : ¬ Unprepared (Directory.reader ⟨[(["f.clj"], []),
      (["cljformat.toml"], "x".toUTF8.data.toList)]⟩) { input := "f.clj" } c := by
    rw [← hcrashed, hrun]
    intro hcrash
    cases hcrash
  exact ⟨hhindered, hprepared, ((hreturns.mpr hprepared).2 hhindered).1⟩

/-- The program is not prepared for a configuration that is not UTF-8. -/
theorem run_crashed_on_undecodable_config : parseArguments ["f.clj"] = .ok { input := "f.clj" } ∧
    (run (Directory.reader ⟨[(["f.clj"], []), (["cljformat.toml"], [0xff])]⟩) ["f.clj"]).run =
      { ending := .crashed (.undecodable ⟨0xff, 0, 1, .startByte⟩) } ∧
    ¬ ∃ code, (run (Directory.reader ⟨[(["f.clj"], []), (["cljformat.toml"], [0xff])]⟩) ["f.clj"]).run.ending =
      .returned code := by
  have hrun : (run (Directory.reader ⟨[(["f.clj"], []), (["cljformat.toml"], [0xff])]⟩) ["f.clj"]).run =
      { ending := .crashed (.undecodable ⟨0xff, 0, 1, .startByte⟩) } := by decide +kernel
  refine ⟨rfl, hrun, ?_⟩
  rintro ⟨code, hcode⟩
  rw [hrun] at hcode
  cases hcode

end CommandLine
end ClojureLayout
