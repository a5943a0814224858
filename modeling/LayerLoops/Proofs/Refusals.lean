import LayerLoops.Options.Load
import LayerLoops.Proofs.Dependencies
import LayerLoops.Proofs.Literals
import LayerLoops.Proofs.SortedKeys

/-! # Options that are refused

An option whose value makes no sense is refused with a diagnostic. A few options are used before anything is known of
the type of their value, and end in another fault if it is none that they can be used with. -/

namespace LayerLoops

namespace Text

theorem digitValue?_lt {c : Char} {d : Nat} (h : digitValue? c = some d) : d < 10 := by
  obtain ⟨first, hfirst, rfl⟩ := Option.map_eq_some_iff.mp h
  have hrange := List.find?_some hfirst
  simp only [Bool.and_eq_true, decide_eq_true_eq] at hrange
  omega

end Text

namespace Decimal

theorem lt_of_mem_looseDigits {cs : List Char} {ds : List Nat} (h : looseDigits cs = some ds) : ∀ d ∈ ds, d < 10 := by
  fun_induction looseDigits cs generalizing ds with
  | case1 => cases h
  | case2 c =>
    obtain ⟨d, hd, rfl⟩ := Option.map_eq_some_iff.mp h
    exact fun e he => List.mem_singleton.mp he ▸ Text.digitValue?_lt hd
  | case3 c rest ih =>
    simp only [Option.bind_eq_bind, Option.bind_eq_some_iff, Option.pure_def, Option.some.injEq] at h
    obtain ⟨d, hd, es, hes, rfl⟩ := h
    exact List.forall_mem_cons.mpr ⟨Text.digitValue?_lt hd, ih hes⟩
  | case4 c rest _ _ ih =>
    simp only [Option.bind_eq_bind, Option.bind_eq_some_iff, Option.pure_def, Option.some.injEq] at h
    obtain ⟨d, hd, es, hes, rfl⟩ := h
    exact List.forall_mem_cons.mpr ⟨Text.digitValue?_lt hd, ih hes⟩

theorem fits_of_readInt? {s : String} {n : Int} (h : readInt? s = some n) : Fits n := by
  unfold readInt? at h
  simp only [Option.bind_eq_bind, Option.bind_eq_some_iff] at h
  obtain ⟨ds, hds, h⟩ := h
  split at h
  · cases h
  · rename_i hlength
    have hlt := foldl_digits_lt (lt_of_mem_looseDigits hds) 0
    rw [Nat.zero_add, Nat.one_mul] at hlt
    refine fits_of_lt_pow ?_ (Nat.le_of_not_gt hlength)
    cases h
    split <;> simpa using hlt

end Decimal

namespace Options

variable {c : Config} {d : Diagnostic} {o : Entries} {v : Value}

def Refused (f : Fault) : Prop := ∃ d, f = .reported d ∧ d.code = .badOption

theorem refused_optionError (message : String) (hint : Option String) :
    Refused (.reported (optionError message hint)) := ⟨_, rfl, rfl⟩

theorem flag_refuses {key : String} (h : flag key v = .error d) : Refused (.reported d) := by
  unfold flag at h
  split at h
  · cases h
  · cases h
  · cases h
  · dsimp only at h
    split_ifs at h
    cases h
    exact refused_optionError _ _

theorem integer_refuses {key : String} {default : Option Int} (h : integer key default v = .error d) :
    Refused (.reported d) := by
  unfold integer at h
  dsimp only at h
  split at h
  · cases h
  · cases h
    exact refused_optionError _ _
  · split at h
    · cases h
    · cases h
      exact refused_optionError _ _

theorem dataMode_refuses (h : dataMode v = .error d) : Refused (.reported d) := by
  unfold dataMode at h
  split at h
  · cases h
  · cases h
    exact refused_optionError _ _

theorem checked_refuses (h : c.checked = .error d) : Refused (.reported d) := by
  unfold Config.checked at h
  split_ifs at h <;> cases h <;> exact refused_optionError _ _

theorem source_refuses (h : source o = .error d) : Refused (.reported d) := by
  unfold source at h
  cases hdump : flag "dump-layers" (o.get "dump-layers") with
  | error e =>
    rw [hdump] at h
    cases h
    exact flag_refuses hdump
  | ok dump =>
    rw [hdump] at h
    simp only [bind, Except.bind] at h
    split at h
    · cases h
      exact refused_optionError _ _
    · cases h

/-- The value of an option has a type that the option cannot be used with. -/
inductive Untyped (o : Entries) (f : Fault) : Prop
  | word {key : String} (hkey : key ∈ ["loop-hierarchy-labels", "layer-data-location"])
      (hset : (o.get key).isSet = true) (hf : trimmedWord (o.get key) = .error f)
  | orders (hf : orderTexts (o.get "loop-orders") = .error f)

theorem located_faults {f : Fault} (h : located c (o.get "layer-data-location") = .error f) :
    Refused f ∨ Untyped o f := by
  have hcheck : ∀ c : Config, c.checked.mapError Fault.reported = .error f → Refused f := by
    intro c hc
    cases hchecked : c.checked with
    | ok d => simp [hchecked, Except.mapError] at hc
    | error d =>
      rw [hchecked] at hc
      cases hc
      exact checked_refuses hchecked
  unfold located at h
  dsimp only at h
  cases hchecked : c.checked.mapError Fault.reported with
  | error g =>
    rw [hchecked] at h
    cases h
    exact .inl (hcheck c hchecked)
  | ok d =>
    rw [hchecked] at h
    simp only [bind, Except.bind] at h
    cases hset : (o.get "layer-data-location").isSet with
    | false =>
      rw [hset] at h
      cases h
    | true =>
      rw [hset] at h
      simp only [Bool.not_true, Bool.false_eq_true, if_false] at h
      split at h
      · exact .inl (hcheck _ h)
      · exact .inl (hcheck _ h)
      · cases hword : trimmedWord (o.get "layer-data-location") with
        | ok w =>
          rw [hword] at h
          cases h
        | error g =>
          rw [hword] at h
          cases h
          exact .inr (.word (by simp) hset hword)

theorem labels_faults {f : Fault}
    (h : trimmedWord ((o.get "loop-hierarchy-labels").orElse (.text "names")) = .error f) : Untyped o f := by
  unfold Value.orElse at h
  split at h
  · rename_i hset
    exact .word (by simp) hset h
  · cases h

theorem dependent_faults {Q : Fault → Prop} (active needed : Bool) (message : String) :
    (dependent active needed message).Faults Q := by
  unfold dependent
  split
  · exact Step.faults_of_ok rfl
  · exact Step.faults_of_ok rfl

/-- Options are refused with a diagnostic, or cannot be used because of the type of their value. -/
theorem config_faults (o : Entries) : (config o).Faults fun f => Refused f ∨ Untyped o f := by
  have hflag : ∀ key, (Step.ofDiagnostic (flag key (o.get key))).Faults fun f => Refused f ∨ Untyped o f :=
    fun key => Step.faults_ofDiagnostic fun d hd => .inl (flag_refuses hd)
  have hinteger : ∀ key default, (Step.ofDiagnostic (integer key default (o.get key))).Faults fun f =>
      Refused f ∨ Untyped o f := fun key default => Step.faults_ofDiagnostic fun d hd => .inl (integer_refuses hd)
  unfold config
  refine Step.Faults.bind (hflag _) fun wanted _ => ?_
  refine Step.Faults.bind (hflag _) fun capture _ => ?_
  refine Step.Faults.bind (hflag _) fun faults _ => ?_
  refine Step.Faults.bind (hinteger _ _) fun single _ => ?_
  refine Step.Faults.bind (dependent_faults _ _ _) fun capture _ => ?_
  refine Step.Faults.bind (dependent_faults _ _ _) fun faults _ => ?_
  refine Step.Faults.bind (dependent_faults _ _ _) fun mainFunction _ => ?_
  refine Step.Faults.bind (Step.faults_ofExcept fun f hf => .inr (labels_faults hf)) fun labels _ => ?_
  dsimp only
  split
  · refine Step.Faults.bind ?_ fun _ h => nomatch h
    rintro f ⟨⟩
    exact .inl (refused_optionError _ _)
  · refine Step.Faults.bind (Step.faults_ofDiagnostic fun d hd => .inl (dataMode_refuses hd)) fun mode _ => ?_
    refine Step.Faults.bind (hflag _) fun withoutBiases _ => ?_
    refine Step.Faults.bind (hflag _) fun approximate _ => ?_
    refine Step.Faults.bind (Step.faults_ofExcept fun f hf => .inr (.orders hf)) fun orders _ => ?_
    refine Step.Faults.bind (hinteger _ _) fun seed _ => ?_
    exact Step.faults_ofExcept fun f hf => located_faults hf

theorem settle_faults (o : Entries) : (settle o).Faults fun f => Refused f ∨ Untyped o f := by
  refine Step.Faults.bind (Step.faults_ofDiagnostic fun d hd => .inl (source_refuses hd)) fun s _ => ?_
  exact Step.Faults.bind (config_faults o) fun c _ => Step.faults_pure _

/-! ## Settings that were accepted -/

theorem located_checked {d : Config} {place : Value} (h : located c place = .ok d) : d.checked = .ok d := by
  have hcheck : ∀ c d : Config, c.checked.mapError Fault.reported = .ok d → d.checked = .ok d := by
    intro c d hc
    have hc := (mapError_ok_iff _ _ _).mp hc
    obtain rfl := checked_eq_ok hc
    exact hc
  simp only [located, bind_eq_ok] at h
  obtain ⟨c', hc, h⟩ := h
  split at h
  · obtain rfl := pure_eq_ok.mp h
    exact hcheck c _ hc
  · split at h
    · exact hcheck _ _ h
    · exact hcheck _ _ h
    · obtain ⟨_, -, h⟩ := bind_eq_ok.mp h
      obtain rfl := pure_eq_ok.mp h
      exact hcheck c _ hc

theorem config_accepted (h : (config o).outcome = .ok c) :
    c.checked = .ok c ∧ ∀ n, c.poolingSeed = some n → Decimal.Fits n := by
  unfold config at h
  simp only [Step.outcome_bind_eq_ok] at h
  obtain ⟨wanted, -, capture, -, faults, -, single, -, capture', -, faults', -, main, -, labels, -, h⟩ := h
  split at h
  · obtain ⟨_, hfail, -⟩ := Step.outcome_bind_eq_ok.mp h
    cases hfail
  simp only [Step.outcome_bind_eq_ok] at h
  obtain ⟨mode, -, withoutBiases, -, approximate, -, orders, -, seed, hseed, h⟩ := h
  refine ⟨located_checked h, ?_⟩
  obtain ⟨place, rfl⟩ := located_eq_ok h
  rintro n rfl
  have hread : integer "pooling-seed" none (o.get "pooling-seed") = .ok (some n) := (mapError_ok_iff _ _ _).mp hseed
  unfold integer at hread
  dsimp only at hread
  split at hread
  · cases hread
  · cases hread
  · split at hread
    · cases hread
      exact Decimal.fits_of_readInt? (by assumption)
    · cases hread

/-! ## Loading -/

/-- Why options cannot be loaded, other than by being refused. -/
inductive Unloadable (fs : Files) (env : Environment) (path : Option String) (overrides : Entries) (f : Fault) : Prop
  /-- The file cannot be read. -/
  | file (hf : fileEntries fs path = .error f)
  /-- The name of a variable cannot be encoded. -/
  | name {base : Entries} {u : Text.Utf8.Unencodable} (hbase : fileEntries fs path = .ok base)
      (hf : (expandEntries env base).outcome = .error f) (hu : f = .unencodable u)
  /-- A key is no text, or an integer is too long. -/
  | entry {base es : Entries} (hbase : fileEntries fs path = .ok base) (hes : (expandEntries env base).outcome = .ok es)
      (hf : (Value.map (given (merge es overrides))).sortedJson = .error f)
      (hentry : ¬ (Value.map (given (merge es overrides))).Ordinary Decimal.Fits)
  | value {o : Entries} (ho : (load fs env path overrides).outcome = .ok o) (hf : Untyped o f)

theorem expandText_faults (env : Environment) (s : String) :
    (expandText env s).Faults fun f => ∃ u, f = .unencodable u := by
  refine Step.Faults.bind (Step.Faults.bind (Step.Faults.mapM (fun name => ?_) _) fun _ _ => Step.faults_pure _)
    fun _ _ => Step.faults_pure _
  split
  · exact Step.faults_ofExcept fun f hf => ⟨_, (Except.error.inj hf).symm⟩
  · exact Step.faults_of_ok rfl

mutual

theorem expand_faults (env : Environment) : ∀ v : Value, (expand env v).Faults fun f => ∃ u, f = .unencodable u
  | .text s => Step.Faults.bind (expandText_faults env s) fun _ _ => Step.faults_pure _
  | .list items => Step.Faults.bind (expandItems_faults env items) fun _ _ => Step.faults_pure _
  | .map entries => Step.Faults.bind (expandEntries_faults env entries) fun _ _ => Step.faults_pure _
  | .null | .boolean _ | .integer _ | .real _ | .bytes _ | .day _ | .moment _ | .pair _ _ | .set _ => Step.faults_pure _

theorem expandItems_faults (env : Environment) :
    ∀ vs : List Value, (expandItems env vs).Faults fun f => ∃ u, f = .unencodable u
  | [] => Step.faults_pure _
  | v :: vs => Step.Faults.bind (expand_faults env v) fun _ _ =>
    Step.Faults.bind (expandItems_faults env vs) fun _ _ => Step.faults_pure _

theorem expandEntries_faults (env : Environment) :
    ∀ es : List (Value × Value), (expandEntries env es).Faults fun f => ∃ u, f = .unencodable u
  | [] => Step.faults_pure _
  | (_, v) :: es => Step.Faults.bind (expand_faults env v) fun _ _ =>
    Step.Faults.bind (expandEntries_faults env es) fun _ _ => Step.faults_pure _

end

theorem load_faults (fs : Files) (env : Environment) (path : Option String) (overrides : Entries) :
    (load fs env path overrides).Faults fun f => Unloadable fs env path overrides f := by
  refine Step.Faults.bind (Step.faults_ofExcept fun f hf => .file hf) fun base hbase => ?_
  refine Step.Faults.bind (fun f hf => ?_) fun es hes => ?_
  · obtain ⟨u, hu⟩ := expandEntries_faults env base f hf
    exact .name hbase hf hu
  · refine Step.Faults.bind (Step.faults_ofExcept fun f hf => ?_) fun json _ => Step.faults_of_ok rfl
    refine .entry hbase hes hf fun hordinary => ?_
    obtain ⟨-, n, hn, hlong⟩ := hordinary.json_failsLong true 0 f hf
    exact hlong hn

theorem loadConfig_faults (fs : Files) (env : Environment) (path : Option String) (overrides : Entries) :
    (loadConfig fs env path overrides).Faults fun f => Refused f ∨ Unloadable fs env path overrides f := by
  refine Step.Faults.bind (fun f hf => .inr (load_faults fs env path overrides f hf)) fun o ho f hf => ?_
  exact (settle_faults o f hf).imp_right (.value ho)

theorem dependent_writes (active needed : Bool) (message : String) :
    (dependent active needed message).Writes fun e => ∃ w, e = .warning w := by
  unfold dependent
  split
  · exact Step.Writes.bind (Step.writes_write ⟨_, rfl⟩) fun _ _ => Step.writes_pure _
  · exact Step.writes_pure _

theorem config_writes (o : Entries) : (config o).Writes fun e => ∃ w, e = .warning w := by
  unfold config
  refine Step.Writes.bind (Step.writes_ofDiagnostic _) fun wanted _ => ?_
  refine Step.Writes.bind (Step.writes_ofDiagnostic _) fun capture _ => ?_
  refine Step.Writes.bind (Step.writes_ofDiagnostic _) fun faults _ => ?_
  refine Step.Writes.bind (Step.writes_ofDiagnostic _) fun single _ => ?_
  refine Step.Writes.bind (dependent_writes _ _ _) fun capture _ => ?_
  refine Step.Writes.bind (dependent_writes _ _ _) fun faults _ => ?_
  refine Step.Writes.bind (dependent_writes _ _ _) fun mainFunction _ => ?_
  refine Step.Writes.bind (Step.writes_ofExcept _) fun labels _ => ?_
  dsimp only
  split
  · exact Step.Writes.bind (fun _ he => nomatch he) fun _ h => nomatch h
  · refine Step.Writes.bind (Step.writes_ofDiagnostic _) fun mode _ => ?_
    refine Step.Writes.bind (Step.writes_ofDiagnostic _) fun withoutBiases _ => ?_
    refine Step.Writes.bind (Step.writes_ofDiagnostic _) fun approximate _ => ?_
    refine Step.Writes.bind (Step.writes_ofExcept _) fun orders _ => ?_
    exact Step.Writes.bind (Step.writes_ofDiagnostic _) fun seed _ => Step.writes_ofExcept _

theorem settle_writes (o : Entries) : (settle o).Writes fun e => ∃ w, e = .warning w :=
  Step.Writes.bind (Step.writes_ofDiagnostic _) fun _ _ =>
    Step.Writes.bind (config_writes o) fun _ _ => Step.writes_pure _

end Options
end LayerLoops
