import LayerLoops.Proofs.InlineSource
import LayerLoops.Proofs.Printed
import LayerLoops.Proofs.Refusals
import LayerLoops.Proofs.Totality
import LayerLoops.Proofs.WrittenFiles

/-! # Faults that escape from a run

A run that ends without a fault ends with the code zero or one, and an option that is refused is reported. Each fault
that a run ends in is one of those listed here: a level that only some parts of the log know, an option whose value has
a type that it cannot be used with, a file or a path that cannot be used, or a numeral that is too long. -/

namespace LayerLoops

open Files (Agree)
open Options (Value Entries)
open Run (Meets)

/-! ## Levels -/

namespace Log

variable {l : Log} {level : String}

theorem template_empty : ∃ t, template "" = .ok t := by
  have h : (template "").isOk = true := by decide +kernel
  cases ht : template "" with
  | ok t => exact ⟨t, rfl⟩
  | error f =>
    rw [ht] at h
    cases h

theorem setup_faults {file : Option String} {append : Bool} {f : Fault} (h : (l.setup level file append).2 = .error f) :
    (Level.ofName? (Text.upper level) = none ∧ f = .unknownLevel (Text.upper level)) ∨
      ∃ path, file = some path ∧ (openFile l.files (plainPath path) append).2 = .error f := by
  obtain ⟨t, ht⟩ := template_empty
  unfold setup at h
  dsimp only at h
  rw [ht] at h
  split at h
  · cases h
    exact .inl ⟨by assumption, rfl⟩
  · rename_i hok
    cases hok
  · cases file with
    | none => cases h
    | some path =>
      refine .inr ⟨path, rfl, ?_⟩
      dsimp only at h
      split at h
      · cases h
        assumption
      · cases h

theorem setup_unknown (h : Level.ofName? (Text.upper level) = none) (file : Option String) (append : Bool) :
    (l.setup level file append).2 = .error (.unknownLevel (Text.upper level)) := by
  unfold setup
  dsimp only
  rw [h]

theorem route_faults {f : Fault} (h : (l.route level).2 = .error f) :
    passLevels.lookup (Text.upper level) = none ∧ f = .unknownThreshold (Text.upper level) := by
  unfold route at h
  dsimp only at h
  split at h
  · cases h
    exact ⟨by assumption, rfl⟩
  · cases h

end Log

namespace Options

/-- The levels that options can have, but that the passes cannot be limited to. -/
def unroutedLevels : List String := ["trace", "success"]

theorem logLevels_known : ∀ level ∈ logLevels, Level.ofName? (Text.upper level) ≠ none ∧
    (Log.passLevels.lookup (Text.upper level) = none ↔ level ∈ unroutedLevels) := by
  decide +kernel

theorem source_logLevel {o : Entries} {s : Source} (h : source o = .ok s) : s.logLevel ∈ logLevels := by
  simp only [source, bind_eq_ok] at h
  obtain ⟨dump, -, h⟩ := h
  split_ifs at h with hlevel
  · obtain ⟨_, ⟨⟩, -⟩ := bind_eq_ok.mp h
  · cases h
    simpa using hlevel

theorem settle_accepted {o : Entries} {s : Source} {c : Config} (h : (settle o).outcome = .ok (s, c)) :
    s.logLevel ∈ logLevels ∧ c.checked = .ok c ∧ ∀ n, c.poolingSeed = some n → Decimal.Fits n := by
  obtain ⟨s', hs, h⟩ := Step.outcome_bind_eq_ok.mp h
  obtain ⟨c', hc, h⟩ := Step.outcome_bind_eq_ok.mp h
  cases h
  exact ⟨source_logLevel ((mapError_ok_iff _ _ _).mp hs), config_accepted hc⟩

theorem loadConfig_direct (fs : Files) (env : Environment) (path : Option String) (overrides : Entries) :
    ∀ v, .event v ∈ (loadConfig fs env path overrides).journal → v.direct = true := by
  have hwrites : (loadConfig fs env path overrides).Writes fun e => ∀ v, e = .event v → v.direct = true := by
    refine Step.Writes.bind (fun e he => ?_) fun o _ e he => ?_
    · obtain ⟨v, rfl, hv⟩ := quiet_load fs env path overrides e he
      rintro _ ⟨⟩
      exact hv
    · obtain ⟨w, rfl⟩ := settle_writes o e he
      rintro v ⟨⟩
  exact fun v hv => hwrites _ hv v rfl

end Options

/-! ## Where a run can end in a fault -/

namespace Command

variable {c : Config} {f : Fault} {gs : Files} {j : Job} {lines : List String} {v : Value} {fs : Files} {p : Parsed}
  {env : Options.Environment} {s : Options.Source}

/-- The command line or the options name the log file by this value. -/
def IsLogOption (p : Parsed) (fs : Files) (env : Options.Environment) (v : Value) : Prop :=
  v = p.get "log-location" ∨ ∃ s c, (loaded p (begun p fs) env).outcome = .ok (s, c) ∧ v = s.logFile

/-- The run comes to this compilation, whose document consists of these lines. -/
structure Asks (p : Parsed) (fs : Files) (env : Options.Environment) (s : Options.Source) (j : Job)
    (lines : List String) : Prop where
  loaded : (loaded p (begun p fs) env).outcome = .ok (s, j.config)
  document : j.document = Source.Document.ofLines (some j.name) lines
  asked : ∃ gs, Agree (LogPlace p fs env) fs gs ∧
    jobOf gs (Command.loaded p (begun p fs) env).journal s j.config = .ok j

/-- The faults that a run can end in. -/
inductive Escape (p : Parsed) (fs : Files) (env : Options.Environment) : Fault → Prop
  /-- The level on the command line is unknown. -/
  | level (h : Level.ofName? (Text.upper (startLevel p)) = none) :
      Escape p fs env (.unknownLevel (Text.upper (startLevel p)))
  /-- The level is known to the options, but not to the passes. -/
  | threshold {s : Options.Source} {c : Config} (hs : (loaded p (begun p fs) env).outcome = .ok (s, c))
      (h : s.logLevel ∈ Options.unroutedLevels) : Escape p fs env (.unknownThreshold (Text.upper s.logLevel))
  | logPath {v : Value} {f : Fault} (hv : IsLogOption p fs env v) (h : optionalPath v = .error f) : Escape p fs env f
  | logFile {v : Value} {path : String} {gs : Files} {append : Bool} {f : Fault} (hv : IsLogOption p fs env v)
      (hpath : optionalPath v = .ok (some path)) (hgs : Agree (LogPlace p fs env) fs gs)
      (h : (Log.openFile gs (plainPath path) append).2 = .error f) : Escape p fs env f
  /-- The options cannot be loaded, and the reason is none that is reported. -/
  | options {f : Fault} (hf : ∀ d, f ≠ .reported d)
      (h : Options.Unloadable (begun p fs) env (optionsPath p) (overrides p) f) : Escape p fs env f
  | sourcePath {s : Options.Source} {c : Config} {f : Fault} (hs : (loaded p (begun p fs) env).outcome = .ok (s, c))
      (hset : s.file.isSet = true) (h : Options.pathOf s.file = .error f) : Escape p fs env f
  | sourceFile {s : Options.Source} {c : Config} {path : String} {gs : Files} {f : Fault}
      (hs : (loaded p (begun p fs) env).outcome = .ok (s, c)) (hpath : Options.pathOf s.file = .ok path)
      (hgs : Agree (LogPlace p fs env) fs gs) (h : gs.readText (plainPath path) = .error f)
      (hf : f.isUnreadable = false) : Escape p fs env f
  | sourceText {s : Options.Source} {c : Config} {f : Fault} (hs : (loaded p (begun p fs) env).outcome = .ok (s, c))
      (hset : s.text.isSet = true) (h : documentOf Options.inlineName s.text = .error f) : Escape p fs env f
  /-- A literal is too long to be read, or a volume that was inferred is too long to be written. -/
  | compile {s : Options.Source} {j : Job} {lines : List String} {emit : Bool} {f : Fault}
      (hj : Asks p fs env s j lines) (h : j.run emit = .error f)
      (hlong : ¬ Source.ShortLiterals lines ∨ ∃ net ∈ inferredFrom j.document, ¬ net.VolumesFit) : Escape p fs env f
  /-- A volume is too long to be told. -/
  | volume {s : Options.Source} {j : Job} {lines : List String} {emit : Bool} {r : Compilation} {number : Nat}
      {kind : Kind} {input output : Option Volume} {v : Volume} (hj : Asks p fs env s j lines)
      (hr : j.run emit = .ok r) (he : .event (.inferred number kind input output) ∈ r.journal)
      (hv : v ∈ input.toList ++ output.toList) (h : ¬ v.Fits) : Escape p fs env .numeralTooLong
  /-- A number of the network is too long to be printed. -/
  | number {s : Options.Source} {j : Job} {lines : List String} {r : Compilation} {net : Network} {n : Int}
      (hj : Asks p fs env s j lines) (hr : j.run true = .ok r) (hnet : r.network = some net) (hn : n ∈ net.numbers)
      (h : ¬ Decimal.Fits n) : Escape p fs env .numeralTooLong
  | directory {s : Options.Source} {c : Config} {f : Fault} (hs : (loaded p (begun p fs) env).outcome = .ok (s, c))
      (h : Options.pathOf s.directory = .error f) : Escape p fs env f
  /-- The files cannot be written. -/
  | write {s : Options.Source} {r : Compilation} {directory : String} {texts : List (String × String)} {gs : Files}
      {f : Fault} (hr : Compiled p fs env s r directory texts) (hgs : Agree (LogPlace p fs env) fs gs)
      (h : (r.writeFiles gs directory s.dump).2 = .error f) : Escape p fs env f

/-- A part of a run has left all files but log files as they were, and a fault that it ends in is listed. -/
structure Safe {α : Type} (p : Parsed) (fs : Files) (env : Options.Environment) (result : Except Fault α) (l : Log) :
    Prop where
  kept : Kept (LogPlace p fs env) fs l
  fault : ∀ f, result = .error f → Escape p fs env f

/-- A run has ended with a code that is zero or one, or with a fault that is listed. -/
structure Ended (p : Parsed) (fs : Files) (env : Options.Environment) (result : Except Fault Ending) (l : Log) :
    Prop where
  exit : ∀ e, result = .ok e → e.exit = 0 ∨ e.exit = 1
  fault : ∀ f, result = .error f → Escape p fs env f

theorem ended_of_escape (h : Escape p fs env f) (l : Log) : Ended p fs env (.error f) l := by
  constructor
  · rintro e ⟨⟩
  · rintro _ ⟨⟩
    exact h

theorem ended_of_exit {e : Ending} (h : e.exit = 0 ∨ e.exit = 1) (l : Log) : Ended p fs env (.ok e) l := by
  constructor
  · rintro _ ⟨⟩
    exact h
  · rintro f ⟨⟩

theorem ended_bind {α : Type} {x : Run α} {next : α → Run Ending}
    (hx : Meets (Kept (LogPlace p fs env) fs) x (Safe p fs env))
    (hnext : ∀ a, Meets (Kept (LogPlace p fs env) fs) (next a) (Ended p fs env)) :
    Meets (Kept (LogPlace p fs env) fs) (x >>= next) (Ended p fs env) :=
  Run.Meets.bind hx (fun a l hl => hnext a l hl.kept) fun f l hl => ended_of_escape (hl.fault f rfl) l

theorem safe_tell {j : Journal} (h : ∀ v, .event v ∈ j → v.direct = true) :
    Meets (Kept (LogPlace p fs env) fs) (Run.tell j) (Safe p fs env) := by
  refine fun l hl => ⟨kept_tell j l hl, fun f hf => ?_⟩
  rw [tell_direct h] at hf
  cases hf

theorem safe_setup (hv : IsLogOption p fs env v) {file : Option String} (hfile : optionalPath v = .ok file)
    {level : String} (hlevel : Level.ofName? (Text.upper level) ≠ none) (append : Bool) :
    Meets (Kept (LogPlace p fs env) fs) (Run.setup level file append) (Safe p fs env) := by
  have hplaces : ∀ q, LogFileOf v q → LogPlace p fs env q := by
    rintro q hq
    rcases hv with rfl | ⟨s, c, hs, rfl⟩
    · exact .inl hq
    · exact .inr ⟨s, c, hs, hq⟩
  refine fun l hl => ⟨kept_setup hplaces hfile level append l hl, fun f hf => ?_⟩
  rcases Log.setup_faults hf with ⟨hnone, -⟩ | ⟨path, rfl, hopen⟩
  · exact absurd hnone hlevel
  · exact .logFile hv hfile hl.agree hopen

theorem safe_start : Meets (Kept (LogPlace p fs env) fs) (start p) (Safe p fs env) := by
  have hfirst : Meets (Kept (LogPlace p fs env) fs) (Run.setup (startLevel p) none false) fun r l =>
      Safe p fs env r l ∧ (r = .ok () → Level.ofName? (Text.upper (startLevel p)) ≠ none) := by
    intro l hl
    have hnull : ∀ q, LogFileOf .null q → LogPlace p fs env q := by
      rintro q ⟨path, ⟨⟩, -⟩
    have hkept := kept_setup hnull rfl (startLevel p) false l hl
    refine ⟨⟨hkept, fun f hf => ?_⟩, fun hok hnone => ?_⟩
    · rcases Log.setup_faults hf with ⟨hnone, rfl⟩ | ⟨path, ⟨⟩, -⟩
      exact .level hnone
    · cases hok.symm.trans (Log.setup_unknown hnone none false)
  refine Run.Meets.bind hfirst (fun _ l hl => ?_) fun f l hl => ⟨hl.1.kept, hl.1.fault⟩
  have hrest : Meets (Kept (LogPlace p fs env) fs)
      (Run.ofExcept (optionalPath (p.get "log-location")) >>= fun file => Run.setup (startLevel p) file false)
      (Safe p fs env) := by
    refine Run.meets_ofExcept_bind (fun file hfile => safe_setup (.inl rfl) hfile (hl.2 rfl) false) ?_
    refine fun f l hpath hl => ⟨hl, ?_⟩
    rintro _ ⟨⟩
    exact .logPath (.inl rfl) hpath
  exact hrest l hl.1.kept

theorem safe_resume (hs : (loaded p (begun p fs) env).outcome = .ok (s, c)) (hlevel : s.logLevel ∈ Options.logLevels) :
    Meets (Kept (LogPlace p fs env) fs) (resume s) (Safe p fs env) := by
  have hoption : IsLogOption p fs env s.logFile := .inr ⟨s, c, hs, rfl⟩
  obtain ⟨hknown, hrouted⟩ := Options.logLevels_known _ hlevel
  refine Run.meets_ofExcept_bind (fun file hfile => ?_) fun f l hpath hl => ⟨hl, ?_⟩
  · refine Run.Meets.bind (safe_setup hoption hfile hknown true) (fun _ l hl => ?_) fun f l hl => ⟨hl.kept, hl.fault⟩
    refine ⟨?_, fun f hf => ?_⟩
    · unfold Run.route Log.route
      dsimp only
      split <;> exact ⟨hl.kept.confined, hl.kept.agree⟩
    · obtain ⟨hnone, rfl⟩ := Log.route_faults hf
      exact .threshold hs (hrouted.mp hnone)
  · rintro _ ⟨⟩
    exact .logPath hoption hpath

/-! ## Compiling -/

theorem documentOf_lines {name : String} {d : Step Source.Document} (h : documentOf name v = .ok d) :
    ∃ lines, d = Source.Document.ofLines (some name) lines := by
  have hlines {items : List Value} (h : documentOf.lines name items = .ok d) :
      ∃ lines, d = Source.Document.ofLines (some name) lines := by
    obtain ⟨lines, -, h⟩ := bind_eq_ok.mp h
    cases h
    exact ⟨lines, rfl⟩
  cases v with
  | text t =>
    cases h
    exact ⟨Text.lines t, rfl⟩
  | bytes bs => exact hlines h
  | pair a b => exact hlines h
  | list items => exact hlines h
  | set items => exact hlines h
  | map entries => exact hlines h
  | null | boolean b | integer n | real x | day d | moment m => cases h

theorem asks_of_jobOf (hs : (loaded p (begun p fs) env).outcome = .ok (s, c)) (hgs : Agree (LogPlace p fs env) fs gs)
    (hj : jobOf gs (loaded p (begun p fs) env).journal s c = .ok j) : ∃ lines, Asks p fs env s j lines := by
  have hasked := hj
  obtain ⟨⟨v, name⟩, -, hj⟩ := bind_eq_ok.mp hj
  obtain ⟨document, hdocument, hj⟩ := bind_eq_ok.mp hj
  obtain ⟨lines, rfl⟩ := documentOf_lines hdocument
  cases hj
  exact ⟨lines, hs, rfl, gs, hgs, hasked⟩

theorem read_cases {name : String} (h : s.read gs = .ok (v, name)) :
    (s.text.isSet = true ∧ v = s.text ∧ name = Options.inlineName) ∨ ∃ t, v = .text t := by
  unfold Options.Source.read at h
  split at h
  · cases h
    exact .inl ⟨by assumption, rfl, rfl⟩
  · split at h
    · cases h
    · obtain ⟨path, -, h⟩ := bind_eq_ok.mp h
      split at h
      · cases h
        exact .inr ⟨_, rfl⟩
      · split at h <;> cases h

theorem escape_read (hs : (loaded p (begun p fs) env).outcome = .ok (s, c)) (hgs : Agree (LogPlace p fs env) fs gs)
    (hf : ∀ d, f ≠ .reported d) (h : s.read gs = .error f) : Escape p fs env f := by
  unfold Options.Source.read at h
  split at h
  · cases h
  · split at h
    · cases h
      exact absurd rfl (hf _)
    · rename_i hset
      rcases bind_eq_error.mp h with hpath | ⟨path, hpath, h⟩
      · exact .sourcePath hs (by simpa using hset) hpath
      · split at h
        · cases h
        · rename_i g hread
          split at h
          · cases h
            exact absurd rfl (hf _)
          · rename_i hunreadable
            cases h
            exact .sourceFile hs hpath hgs hread (Bool.eq_false_iff.mpr hunreadable)

theorem escape_jobOf (hs : (loaded p (begun p fs) env).outcome = .ok (s, c)) (hgs : Agree (LogPlace p fs env) fs gs)
    (hf : ∀ d, f ≠ .reported d) (h : jobOf gs (loaded p (begun p fs) env).journal s c = .error f) :
    Escape p fs env f := by
  rcases bind_eq_error.mp h with hread | ⟨⟨v, name⟩, hread, h⟩
  · exact escape_read hs hgs hf hread
  · rcases bind_eq_error.mp h with h | ⟨d, -, ⟨⟩⟩
    rcases read_cases hread with ⟨hset, rfl, rfl⟩ | ⟨t, rfl⟩
    · exact .sourceText hs hset h
    · cases h

theorem Asks.accepted (h : Asks p fs env s j lines) :
    s.logLevel ∈ Options.logLevels ∧ j.config.checked = .ok j.config ∧
      ∀ n, j.config.poolingSeed = some n → Decimal.Fits n := by
  obtain ⟨o, -, ho⟩ := Step.outcome_bind_eq_ok.mp h.loaded
  exact Options.settle_accepted ho

/-- A compilation returns unless a literal or a volume is too long. -/
theorem Asks.escape_run (h : Asks p fs env s j lines) {emit : Bool} (hf : j.run emit = .error f) :
    Escape p fs env f := by
  refine .compile h hf ?_
  by_contra hshort
  obtain ⟨hliterals, hvolumes⟩ := not_or.mp hshort
  obtain ⟨-, hchecked, hseed⟩ := h.accepted
  rw [h.document] at hvolumes
  have hfit : ∀ net ∈ inferredFrom (Source.Document.ofLines (some j.name) lines), net.VolumesFit :=
    fun net hnet => by_contra fun hlong => hvolumes ⟨net, hnet, hlong⟩
  obtain ⟨q, r, hq, hr, -⟩ := compile_returns hchecked hseed (not_not.mp hliterals) hfit j.prior
  rw [Job.run, h.document] at hf
  cases emit with
  | true => cases hr.symm.trans hf
  | false => cases hq.symm.trans hf

theorem told_faults {e : Event} (h : e.told = .error f) : f = .numeralTooLong ∧
    ∃ number kind input output v, e = .inferred number kind input output ∧ v ∈ input.toList ++ output.toList ∧
      ¬ v.Fits := by
  cases e with
  | inferred number kind input output =>
    rw [Event.told] at h
    split at h
    · cases h
    · rename_i hlong
      cases h
      simp only [List.all_eq_true, decide_eq_true_eq, not_forall] at hlong
      obtain ⟨v, hv, hlong⟩ := hlong
      exact ⟨rfl, number, kind, input, output, v, rfl, hv, hlong⟩
  | _ => cases h

theorem Asks.safe_tellCompiled (h : Asks p fs env s j lines) {emit : Bool} {r : Compilation} (hr : j.run emit = .ok r)
    (n : Nat) : Meets (Kept (LogPlace p fs env) fs) (Run.tell (r.journal.drop n)) (Safe p fs env) := by
  refine fun l hl => ⟨kept_tell _ l hl, fun f hf => ?_⟩
  obtain ⟨e, he, -, htold⟩ := tell_faults hf
  obtain ⟨rfl, number, kind, input, output, v, rfl, hv, hlong⟩ := told_faults htold
  exact .volume h hr (List.mem_of_mem_drop he) hv hlong

theorem ended_validate (h : Asks p fs env s j lines) :
    Meets (Kept (LogPlace p fs env) fs) (validate p j) (Ended p fs env) := by
  refine Run.meets_ofExcept_bind (fun r hr => ?_) fun f l hf _ => ended_of_escape (h.escape_run hf) l
  refine ended_bind (h.safe_tellCompiled hr _) fun _ => ?_
  dsimp only
  split
  · exact fun l _ => ended_of_exit (.inl rfl) l
  · exact fun l _ => ended_of_exit (.inr rfl) _

theorem ended_write {r : Compilation} {directory : String} {texts : List (String × String)} {text : String}
    (h : Compiled p fs env s r directory texts) : Meets (Kept (LogPlace p fs env) fs) (do
      let paths ← Run.change fun fs => r.writeFiles fs directory s.dump
      Run.tell (.event (.wrote paths.length (plainPath directory)) :: paths.map fun path => .event (.wroteFile path))
      pure { exit := 0, printed := text }) (Ended p fs env) := by
  have hchange : Meets (Kept (LogPlace p fs env) fs) (Run.change fun fs => r.writeFiles fs directory s.dump)
      fun result _ => ∀ f, result = .error f → Escape p fs env f :=
    fun l hl f hf => .write h hl.agree hf
  refine Run.Meets.bind hchange (fun paths => ?_) fun f l hl => ended_of_escape (hl f rfl) l
  have htell : ∀ pre, Meets pre (Run.tell
      (.event (.wrote paths.length (plainPath directory)) :: paths.map fun path => .event (.wroteFile path)))
      fun result _ => result = .ok () := fun _ l _ => tell_wrote _ _ l
  refine Run.Meets.bind (htell _) (fun _ l _ => ended_of_exit (.inl rfl) l) ?_
  rintro f l ⟨⟩

theorem ended_build (h : Asks p fs env s j lines) :
    Meets (Kept (LogPlace p fs env) fs) (build p s j) (Ended p fs env) := by
  refine ended_bind (safe_tell ?_) fun _ => ?_
  · rintro v hv
    cases List.mem_singleton.mp hv
    rfl
  refine Run.meets_ofExcept_bind (fun r hr => ?_) fun f l hf _ => ended_of_escape (h.escape_run hf) l
  refine ended_bind (h.safe_tellCompiled hr _) fun _ => ?_
  refine Run.meets_ofExcept_bind (fun text htext => ?_) fun f l hf _ => ?_
  · split
    · exact fun l _ => ended_of_exit (.inr rfl) l
    · rename_i hsuccess
      have hsuccess : r.success = true := by simpa using hsuccess
      refine Run.meets_ofExcept_bind (fun directory hdirectory => ?_) fun f l hf _ => ?_
      · obtain ⟨texts, htexts⟩ := gives_of_printed hr hsuccess htext
        obtain ⟨gs, hgs, hjob⟩ := h.asked
        exact ended_write
          ⟨⟨j.config, gs, j, h.loaded, hgs, hjob, hr⟩, List.isEmpty_iff.mp hsuccess, hdirectory, htexts⟩
      · exact ended_of_escape (.directory h.loaded hf) l
  · have hnumbers : ∀ net ∈ r.network, ∀ n ∈ net.numbers, ∃ net, r.network = some net ∧ n ∈ net.numbers :=
      fun net hnet n hn => ⟨net, hnet, hn⟩
    obtain ⟨rfl, n, ⟨net, hnet, hn⟩, hlong⟩ := failsLong_printed hnumbers p s f hf
    exact ended_of_escape (.number h hr hnet hn hlong) l

theorem ended_refuse (what : String) (d : Diagnostic) :
    Meets (Kept (LogPlace p fs env) fs) (refuse what d) (Ended p fs env) :=
  fun _ _ => ended_of_exit (.inr rfl) _

theorem ended_proceed (hs : (loaded p (begun p fs) env).outcome = .ok (s, c)) :
    Meets (Kept (LogPlace p fs env) fs) (proceed p (loaded p (begun p fs) env).journal s c) (Ended p fs env) := by
  obtain ⟨o, -, ho⟩ := Step.outcome_bind_eq_ok.mp hs
  refine ended_bind (safe_resume hs (Options.settle_accepted ho).1) fun _ => ?_
  split
  · exact fun l _ => ended_of_exit (.inr rfl) _
  · refine Run.meets_files_bind fun gs => ?_
    split
    · exact fun l hl => ended_refuse _ _ l hl.1
    · rename_i f hf hjob
      rintro l ⟨hl, rfl⟩
      exact ended_of_escape (escape_jobOf hs hl.agree hf hjob) l
    · rename_i j hjob
      rintro l ⟨hl, rfl⟩
      obtain ⟨lines, hasks⟩ := asks_of_jobOf hs hl.agree hjob
      split
      · exact ended_validate hasks l hl
      · exact ended_build hasks l hl

theorem ended_withOptions : Meets (Kept (LogPlace p fs env) fs) (withOptions p (loaded p (begun p fs) env))
    (Ended p fs env) := by
  refine ended_bind (safe_tell (Options.loadConfig_direct _ _ _ _)) fun _ => ?_
  split
  · exact ended_refuse _ _
  · rename_i f hf hloaded
    refine fun l _ => ended_of_escape ?_ l
    rcases Options.loadConfig_faults _ _ _ _ f hloaded with ⟨d, rfl, -⟩ | hunloadable
    · exact absurd rfl (hf d)
    · exact .options hf hunloadable
  · rename_i hs
    exact ended_proceed hs

/-! ## Runs that end in a fault for sure -/

theorem start_unknownLevel (h : Level.ofName? (Text.upper (startLevel p)) = none) (l : Log) :
    (start p l).2 = .error (.unknownLevel (Text.upper (startLevel p))) := by
  have hsetup : ∀ pre, Meets pre (Run.setup (startLevel p) none false) fun r _ =>
      r = .error (.unknownLevel (Text.upper (startLevel p))) := fun _ _ _ => Log.setup_unknown h none false
  have hstart : Meets (fun _ => True) (start p) fun r _ => r = .error (.unknownLevel (Text.upper (startLevel p))) := by
    refine Run.Meets.bind (hsetup _) (fun _ _ hl => nomatch hl) ?_
    rintro _ _ ⟨⟩
    rfl
  exact hstart l trivial

theorem resume_unrouted (h : s.logLevel ∈ Options.unroutedLevels) :
    Meets (fun _ => True) (resume s) fun r _ => ∃ f, r = .error f := by
  have hlevels : ∀ level ∈ Options.unroutedLevels, Log.passLevels.lookup (Text.upper level) = none := by decide +kernel
  have hsetup : ∀ pre file, Meets pre (Run.setup s.logLevel file true) fun _ _ => True := fun _ _ _ _ => trivial
  refine Run.meets_ofExcept_bind (fun file _ => ?_) fun f _ _ _ => ⟨f, rfl⟩
  refine Run.Meets.bind (hsetup _ file) (fun _ l _ => ?_) fun f _ _ => ⟨f, rfl⟩
  unfold Run.route Log.route
  dsimp only
  rw [hlevels _ h]
  exact ⟨_, rfl⟩

section Loaded

variable {x : Step (Options.Source × Config)}

theorem withOptions_told (hx : ∀ v, .event v ∈ x.journal → v.direct = true) (l : Log) :
    ∃ l', withOptions p x l = (match x.outcome with
      | .error (.reported d) => refuse "Invalid options" d
      | .error f => Run.ofExcept (.error f)
      | .ok (s, c) => proceed p x.journal s c) l' := by
  refine ⟨(Run.tell x.journal l).1, ?_⟩
  unfold withOptions
  exact Run.bind_of_ok (tell_direct hx l) _

theorem withOptions_reported (hx : ∀ v, .event v ∈ x.journal → v.direct = true) {d : Diagnostic}
    (hd : x.outcome = .error (.reported d)) (l : Log) : ∃ before, (withOptions p x l).2 = .ok { exit := 1 } ∧
      (withOptions p x l).1.console = before ++ ("Invalid options: " ++ d.text ++ "\n") := by
  obtain ⟨l', hl'⟩ := withOptions_told (p := p) hx l
  rw [hl', hd]
  exact ⟨l'.console, rfl, rfl⟩

theorem withOptions_fault (hx : ∀ v, .event v ∈ x.journal → v.direct = true) {f : Fault} (hf : ∀ d, f ≠ .reported d)
    (h : x.outcome = .error f) (l : Log) : (withOptions p x l).2 = .error f := by
  obtain ⟨l', hl'⟩ := withOptions_told (p := p) hx l
  rw [hl', h]
  cases f with
  | reported d => exact absurd rfl (hf d)
  | _ => rfl

theorem withOptions_unrouted (hx : ∀ v, .event v ∈ x.journal → v.direct = true) {c : Config}
    (hs : x.outcome = .ok (s, c)) (hlevel : s.logLevel ∈ Options.unroutedLevels) (l : Log) :
    ∃ f, (withOptions p x l).2 = .error f := by
  obtain ⟨l', hl'⟩ := withOptions_told (p := p) hx l
  rw [hl', hs]
  have hproceed : Meets (fun _ => True) (proceed p x.journal s c) fun r _ => ∃ f, r = .error f := by
    refine Run.Meets.bind (resume_unrouted hlevel) ?_ fun f _ _ => ⟨f, rfl⟩
    rintro _ _ ⟨_, ⟨⟩⟩
  exact hproceed l' trivial

end Loaded

theorem compiling_of_start {l : Log} (h : (start p l).2 = .ok ()) :
    compiling p env l = withOptions p (loaded p (start p l).1.files env) (start p l).1 := by
  unfold compiling
  rw [Run.bind_of_ok h]
  rfl

theorem compiling_of_fault {l : Log} (h : (start p l).2 = .error f) : (compiling p env l).2 = .error f := by
  unfold compiling
  rw [Run.bind_of_error h]

/-! ## Runs -/

/-- How a run deals with options that it cannot use. -/
structure Answered (p : Parsed) (fs : Files) (env : Options.Environment) (result : Except Fault Ending) (l : Log) :
    Prop extends Ended p fs env result l where
  /-- A level on the command line that is unknown is not reported. -/
  level : Level.ofName? (Text.upper (startLevel p)) = none → result = .error (.unknownLevel (Text.upper (startLevel p)))
  /-- Two of the levels that the options may have end every run in a fault. -/
  threshold : ∀ s c, (loaded p (begun p fs) env).outcome = .ok (s, c) → s.logLevel ∈ Options.unroutedLevels →
    ∃ f, result = .error f
  /-- Options that are refused are reported, unless the value of one has a type that it cannot be used with. -/
  option : ∀ o f, (start p { files := fs }).2 = .ok () →
    (Options.load (begun p fs) env (optionsPath p) (overrides p)).outcome = .ok o →
    (Options.settle o).outcome = .error f →
    (Options.Untyped o f ∧ result = .error f) ∨ ∃ d before, f = .reported d ∧ d.code.label = "E020" ∧
      result = .ok { exit := 1 } ∧ l.console = before ++ ("Invalid options: " ++ d.text ++ "\n")

theorem ended_compiling (p : Parsed) (fs : Files) (env : Options.Environment) :
    Ended p fs env (compiling p env { files := fs }).2 (compiling p env { files := fs }).1 := by
  have hsafe : Safe p fs env (start p { files := fs }).2 (start p { files := fs }).1 := safe_start _ (kept_files _ fs)
  cases hstart : (start p { files := fs }).2 with
  | ok u =>
    rw [compiling_of_start hstart]
    exact ended_withOptions _ hsafe.kept
  | error f =>
    rw [compiling_of_fault hstart]
    exact ended_of_escape (hsafe.fault f hstart) _

theorem not_reported_of_untyped {o : Entries} (h : Options.Untyped o f) (d : Diagnostic) : f ≠ .reported d := by
  rintro rfl
  cases h with
  | word _ _ hf =>
    unfold Options.trimmedWord at hf
    split at hf <;> cases hf
  | orders hf =>
    unfold Options.orderTexts at hf
    split at hf <;> cases hf

theorem option_answered {o : Entries} (hstart : (start p { files := fs }).2 = .ok ())
    (ho : (Options.load (begun p fs) env (optionsPath p) (overrides p)).outcome = .ok o)
    (hf : (Options.settle o).outcome = .error f) :
    (Options.Untyped o f ∧ (compiling p env { files := fs }).2 = .error f) ∨
      ∃ d before, f = .reported d ∧ d.code.label = "E020" ∧ (compiling p env { files := fs }).2 = .ok { exit := 1 } ∧
        (compiling p env { files := fs }).1.console = before ++ ("Invalid options: " ++ d.text ++ "\n") := by
  have hloaded : (loaded p (begun p fs) env).outcome = .error f := by
    unfold loaded Options.loadConfig
    rw [Step.bind_of_ok ho]
    exact hf
  have hdirect := Options.loadConfig_direct (begun p fs) env (optionsPath p) (overrides p)
  rw [compiling_of_start hstart]
  rcases Options.settle_faults o f hf with ⟨d, rfl, hcode⟩ | huntyped
  · obtain ⟨before, hresult, hconsole⟩ := withOptions_reported (p := p) hdirect hloaded (start p { files := fs }).1
    exact .inr ⟨d, before, rfl, by rw [hcode]; rfl, hresult, hconsole⟩
  · exact .inl ⟨huntyped, withOptions_fault hdirect (not_reported_of_untyped huntyped) hloaded _⟩

theorem threshold_answered (hs : (loaded p (begun p fs) env).outcome = .ok (s, c))
    (hlevel : s.logLevel ∈ Options.unroutedLevels) : ∃ f, (compiling p env { files := fs }).2 = .error f := by
  cases hstart : (start p { files := fs }).2 with
  | ok u =>
    rw [compiling_of_start hstart]
    exact withOptions_unrouted (Options.loadConfig_direct _ _ _ _) hs hlevel _
  | error f => exact ⟨f, compiling_of_fault hstart⟩

/-- A run ends with the code zero or one, or in one of the faults that are listed. Options that are refused are reported
with their code, and the run ends with the code one. But a level on the command line that is unknown, a level that the
passes do not know, and a value of a type that its option cannot be used with end the run in a fault. -/
theorem options_answered {args : List String} (h : request args = .ok (.compile p)) (fs : Files)
    (env : Options.Environment) :
    Answered p fs env (main args env { files := fs }).2 (main args env { files := fs }).1 := by
  have hmain : main args env = compiling p env := by
    unfold main
    rw [h]
  rw [hmain]
  exact {
    toEnded := ended_compiling p fs env
    level := fun hlevel => compiling_of_fault (start_unknownLevel hlevel _)
    threshold := fun s c hs hlevel => threshold_answered hs hlevel
    option := fun o f hstart ho hf => option_answered hstart ho hf }

def negativeLayerArguments : List String := ["compile", "--single-layer=-2", "--log-level", "Warning"]

def refusesOptions (args : List String) (fs : Files) : Bool :=
  match request args with
  | .ok (.compile p) =>
    match (start p { files := fs }).2, (Options.load (begun p fs) [] (optionsPath p) (overrides p)).outcome with
    | .ok _, .ok o => match (Options.settle o).outcome with
      | .error (.reported _) => true
      | _ => false
    | _, _ => false
  | _ => false

theorem refusesOptions_spec {args : List String} {fs : Files} (h : refusesOptions args fs = true) :
    ∃ p o d, request args = .ok (.compile p) ∧ (start p { files := fs }).2 = .ok () ∧
      (Options.load (begun p fs) [] (optionsPath p) (overrides p)).outcome = .ok o ∧
      (Options.settle o).outcome = .error (.reported d) := by
  unfold refusesOptions at h
  split at h
  · rename_i p hp
    split at h
    · rename_i o hstart ho
      split at h
      · rename_i d hd
        exact ⟨p, o, d, hp, hstart, ho, hd⟩
      · cases h
    · cases h
  · cases h

theorem options_answered_negativeLayer : ∃ (p : Parsed) (d : Diagnostic) (before : String),
    request negativeLayerArguments = .ok (.compile p) ∧ d.code.label = "E020" ∧
      (main negativeLayerArguments [] { files := {} }).2 = .ok { exit := 1 } ∧
      (main negativeLayerArguments [] { files := {} }).1.console =
        before ++ ("Invalid options: " ++ d.text ++ "\n") := by
  have hrefused : refusesOptions negativeLayerArguments {} = true := by decide +kernel
  generalize negativeLayerArguments = args at hrefused ⊢
  generalize ({} : Files) = fs at hrefused ⊢
  obtain ⟨p, o, d, hp, hstart, ho, hd⟩ := refusesOptions_spec hrefused
  have hanswered := options_answered hp fs []
  rcases hanswered.option o _ hstart ho hd with ⟨huntyped, -⟩ | ⟨d', before, hd', hcode, hresult, hconsole⟩
  · exact absurd rfl (not_reported_of_untyped huntyped d)
  · exact ⟨p, d', before, hp, hcode, hresult, hconsole⟩

/-- A level that nothing knows, and one that the options know but the passes do not. -/
def loudArguments : List String :=
  ["compile", "--text", "model.add(Dense(2, input_shape=(3,)))", "--log-level", "loud"]

def tracingArguments : List String :=
  ["compile", "--text", "model.add(Dense(2, input_shape=(3,)))", "--log-level", "trace"]

def endsAtLevel (args : List String) (f : Fault) : Bool :=
  match request args, (main args [] { files := {} }).2, f with
  | .ok (.compile _), .error (.unknownLevel n), .unknownLevel m => n == m
  | .ok (.compile _), .error (.unknownThreshold n), .unknownThreshold m => n == m
  | _, _, _ => false

theorem endsAtLevel_spec {args : List String} (h : endsAtLevel args f = true) :
    ∃ p, request args = .ok (.compile p) ∧ (main args [] { files := {} }).2 = .error f := by
  unfold endsAtLevel at h
  split at h
  · rename_i p n m hp hresult
    exact ⟨p, hp, by rw [hresult, beq_iff_eq.mp h]⟩
  · rename_i p n m hp hresult
    exact ⟨p, hp, by rw [hresult, beq_iff_eq.mp h]⟩
  · cases h

theorem levels_unreported :
    (∃ p, request loudArguments = .ok (.compile p) ∧
      (main loudArguments [] { files := {} }).2 = .error (.unknownLevel "LOUD")) ∧
    ∃ p, request tracingArguments = .ok (.compile p) ∧
      (main tracingArguments [] { files := {} }).2 = .error (.unknownThreshold "TRACE") := by
  have hloud : endsAtLevel loudArguments (.unknownLevel "LOUD") = true := by decide +kernel
  have htracing : endsAtLevel tracingArguments (.unknownThreshold "TRACE") = true := by decide +kernel
  generalize loudArguments = loud at hloud ⊢
  generalize tracingArguments = tracing at htracing ⊢
  exact ⟨endsAtLevel_spec hloud, endsAtLevel_spec htracing⟩

end Command
end LayerLoops
