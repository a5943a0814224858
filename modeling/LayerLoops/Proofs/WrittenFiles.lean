import LayerLoops.Command
import LayerLoops.Proofs.Accepted
import LayerLoops.Proofs.Contracts
import LayerLoops.Proofs.LogFiles

/-! # Files that a run writes

A run writes all of its files or none. It comes to writing only when a compilation has ended without an error
and all texts are there, and nothing but logging follows. Log files are the only others that it changes. -/

namespace LayerLoops

open Files (Agree Grows)
open Run (Meets)

namespace Compilation

variable {dump : Bool} {texts : List (String × String)} {r : Compilation} {fs gs : Files} {directory : String}

/-- The names and the texts of the files that a compilation gives. -/
def Gives (r : Compilation) (dump : Bool) (texts : List (String × String)) : Prop :=
  ∃ sources, r.sources = some sources ∧
    if dump then ∃ net table, r.network = some net ∧ net.dump = .ok table ∧ texts = sources.files ++ [(dumpName, table)]
    else texts = sources.files

theorem Gives.names (h : r.Gives dump texts) :
    texts.map Prod.fst = ["main.cpp", "data-types.h", "param-list.h"] ++ if dump then [dumpName] else [] := by
  obtain ⟨sources, -, h⟩ := h
  cases dump with
  | true =>
    obtain ⟨net, table, -, -, rfl⟩ := h
    rfl
  | false =>
    rw [h]
    rfl

theorem whenWritten_agree {α : Type} {P : FilePlace → Prop} {w : Files × Except Fault Unit}
    {next : Files → Files × Except Fault α} (hw : Agree P fs w.1) (hnext : ∀ gs, Agree P gs (next gs).1) :
    Agree P fs (whenWritten w next).1 := by
  obtain ⟨gs, result⟩ := w
  cases result with
  | ok u => exact hw.trans (hnext gs)
  | error f => exact hw

theorem whenWritten_ok {α : Type} {w : Files × Except Fault Unit} {next : Files → Files × Except Fault α} {a : α}
    (h : whenWritten w next = (gs, .ok a)) : ∃ hs u, w = (hs, .ok u) ∧ next hs = (gs, .ok a) := by
  obtain ⟨hs, result⟩ := w
  cases result with
  | ok u => exact ⟨hs, u, rfl, h⟩
  | error f => cases h

theorem writeAll_agree (directory : String) (files : List (String × Except Fault String)) (fs : Files) :
    Agree (fun q => ∃ x ∈ files, q = placeOf (joinPath directory x.1)) fs (writeAll fs directory files).1 := by
  induction files generalizing fs with
  | nil => exact Agree.refl _ fs
  | cons x files ih =>
    obtain ⟨name, text⟩ := x
    cases text with
    | error f => exact Agree.refl _ fs
    | ok text =>
      rw [writeAll]
      refine whenWritten_agree ((Files.agree_writeText fs _ text).mono ?_) fun gs => (ih gs).mono ?_
      · exact fun q hq => ⟨_, List.mem_cons_self, hq⟩
      · rintro q ⟨x, hx, hq⟩
        exact ⟨x, List.mem_cons_of_mem _ hx, hq⟩

theorem writeAll_content {paths : List String}
    (h : writeAll fs directory (texts.map fun (name, text) => (name, .ok text)) = (gs, .ok paths))
    (hnames : ∀ x ∈ texts, IsFileName x.1) (hnodup : (texts.map Prod.fst).Nodup) :
    ∀ x ∈ texts, gs.content? (placeOf (joinPath directory x.1)) = some (.text x.2) := by
  induction texts generalizing fs gs paths with
  | nil => nofun
  | cons x texts ih =>
    obtain ⟨name, text⟩ := x
    obtain ⟨hname, hnames⟩ := List.forall_mem_cons.mp hnames
    obtain ⟨hfresh, hnodup⟩ := List.nodup_cons.mp hnodup
    rw [List.map_cons, writeAll] at h
    obtain ⟨middle, u, hmiddle, hrest⟩ := whenWritten_ok h
    obtain ⟨ps, hwritten⟩ :
        ∃ ps, writeAll middle directory (texts.map fun (name, text) => (name, .ok text)) = (gs, .ok ps) := by
      generalize writeAll middle directory (texts.map fun (name, text) => (name, .ok text)) = rest at hrest ⊢
      obtain ⟨last, result⟩ := rest
      cases result with
      | ok ps =>
        cases hrest
        exact ⟨ps, rfl⟩
      | error f => cases hrest
    refine List.forall_mem_cons.mpr ⟨?_, ih hwritten hnames hnodup⟩
    have hkept := writeAll_agree directory (texts.map fun (name, text) => (name, .ok text)) middle
    rw [hwritten] at hkept
    rw [hkept, Files.writeText_content hmiddle]
    rintro ⟨x, hx, hsame⟩
    obtain ⟨y, hy, rfl⟩ := List.mem_map.mp hx
    obtain ⟨p, hp⟩ := hname.placeOf_joinPath directory
    obtain ⟨q, hq⟩ := (hnames y hy).placeOf_joinPath directory
    rw [hp, hq] at hsame
    have hnamed : name = y.1 := by simpa using (List.append_inj' hsame rfl).2
    exact hfresh (List.mem_map.mpr ⟨y, hy, hnamed.symm⟩)

theorem Gives.outputs (h : r.Gives dump texts) :
    ∃ sources, r.sources = some sources ∧ r.outputs sources dump = texts.map fun (name, text) => (name, .ok text) := by
  obtain ⟨sources, hsources, h⟩ := h
  refine ⟨sources, hsources, ?_⟩
  unfold Compilation.outputs
  cases dump with
  | true =>
    obtain ⟨net, table, hnet, htable, rfl⟩ := h
    rw [hnet, List.map_append]
    dsimp only
    rw [if_pos rfl, htable]
    rfl
  | false =>
    obtain rfl : texts = sources.files := h
    cases r.network <;> exact List.append_nil _

theorem Gives.isFileName (h : r.Gives dump texts) : (∀ x ∈ texts, IsFileName x.1) ∧ (texts.map Prod.fst).Nodup := by
  have hnames : ∀ name ∈ texts.map Prod.fst, IsFileName name := by
    rw [h.names]
    intro name hname
    have : name ∈ ["main.cpp", "data-types.h", "param-list.h", dumpName] := by
      cases dump <;> simp at hname ⊢ <;> tauto
    simp only [List.mem_cons, List.not_mem_nil, or_false] at this
    rcases this with rfl | rfl | rfl | rfl <;> exact ⟨by decide +kernel, by decide +kernel, by decide +kernel, by decide +kernel⟩
  refine ⟨fun x hx => hnames x.1 (List.mem_map_of_mem hx), ?_⟩
  rw [h.names]
  cases dump <;> decide +kernel

theorem Gives.writeFiles_content {paths : List String} (h : r.Gives dump texts)
    (hw : r.writeFiles fs directory dump = (gs, .ok paths)) :
    (∀ x ∈ texts, gs.content? (placeOf (joinPath directory x.1)) = some (.text x.2)) ∧
      Agree (fun q => ∃ x ∈ texts, q = placeOf (joinPath directory x.1)) fs gs := by
  obtain ⟨sources, hsources, houtputs⟩ := h.outputs
  obtain ⟨hnames, hnodup⟩ := h.isFileName
  unfold writeFiles at hw
  rw [hsources] at hw
  dsimp only at hw
  split at hw
  · cases hw
  · rename_i made hmade
    rw [houtputs] at hw
    refine ⟨writeAll_content hw hnames hnodup, ?_⟩
    have hagree := writeAll_agree directory (texts.map fun (name, text) => (name, .ok text)) made
    rw [hw] at hagree
    refine (Files.agree_of_eq (Files.makeDirectory_content hmade)).trans (hagree.mono ?_)
    rintro q ⟨x, hx, hq⟩
    obtain ⟨y, hy, rfl⟩ := List.mem_map.mp hx
    exact ⟨y, hy, hq⟩

end Compilation

namespace Command

variable {l : Log} {s : Options.Source}

open Options (Value)

variable {P : FilePlace → Prop} {fs : Files} {p : Parsed} {env : Options.Environment}

/-! ## Log files -/

/-- The place is one of the log file that an option asks for. -/
def LogFileOf (v : Value) (q : FilePlace) : Prop :=
  ∃ path, optionalPath v = .ok (some path) ∧ Log.FileAt (plainPath path) q

/-- The files once the log is set up as the command line asks for it. -/
def begun (p : Parsed) (fs : Files) : Files := (start p { files := fs }).1.files

/-- The places of the log files that the command line and the options ask for. -/
def LogPlace (p : Parsed) (fs : Files) (env : Options.Environment) (q : FilePlace) : Prop :=
  LogFileOf (p.get "log-location") q ∨
    ∃ s c, (loaded p (begun p fs) env).outcome = .ok (s, c) ∧ LogFileOf s.logFile q

/-- So far, a run that started with the files `fs` has changed log files only. -/
structure Kept (P : FilePlace → Prop) (fs : Files) (l : Log) : Prop where
  confined : l.Confined P
  agree : Agree P fs l.files

theorem Kept.told {l' : Log} (h : Kept P fs l) (ht : Log.Told P l l') : Kept P fs l' :=
  ⟨ht.confined h.confined, h.agree.trans ht.agree⟩

theorem kept_files (P : FilePlace → Prop) (fs : Files) : Kept P fs { files := fs } :=
  ⟨by simp [Log.Confined], Agree.refl _ _⟩

theorem tell_told (hl : l.Confined P) (j : Journal) : Log.Told P l (Run.tell j l).1 := by
  induction j generalizing l with
  | nil => exact .refl P l
  | cons e j ih =>
    unfold Run.tell
    split
    · rename_i l' hentry
      have hfirst := Log.told_entry hl hentry
      exact hfirst.trans (ih (hfirst.confined hl))
    · exact .refl P l

theorem kept_tell (j : Journal) : Meets (Kept P fs) (Run.tell j) fun _ => Kept P fs :=
  fun _ hl => hl.told (tell_told hl.confined j)

theorem kept_say (text : String) : Meets (Kept P fs) (Run.say text) fun _ => Kept P fs :=
  fun l hl => hl.told (Log.told_say P l text)

theorem kept_setup {v : Value} (hv : ∀ q, LogFileOf v q → P q) {file : Option String} (hfile : optionalPath v = .ok file)
    (level : String) (append : Bool) : Meets (Kept P fs) (Run.setup level file append) fun _ => Kept P fs := by
  intro l hl
  have hP : ∀ path ∈ file, ∀ q, Log.FileAt (plainPath path) q → P q := fun path hpath q hq =>
    hv q ⟨path, by rw [hfile, Option.mem_def.mp hpath], hq⟩
  obtain ⟨hconfined, hagree⟩ := Log.setup_keeps hP l level append ""
  exact ⟨hconfined, hl.agree.trans hagree⟩

theorem kept_start (hv : ∀ q, LogFileOf (p.get "log-location") q → P q) :
    Meets (Kept P fs) (start p) fun _ => Kept P fs := by
  refine Run.Meets.bind (kept_setup (v := .null) ?_ rfl _ _) ?_ fun _ _ hl => hl
  · rintro q ⟨path, ⟨⟩, -⟩
  · exact fun _ => Run.meets_ofExcept_bind (fun _ hfile => kept_setup hv hfile _ _) fun _ _ _ hl => hl

theorem kept_resume (hv : ∀ q, LogFileOf s.logFile q → P q) : Meets (Kept P fs) (resume s) fun _ => Kept P fs := by
  refine Run.meets_ofExcept_bind (fun file hfile => ?_) fun _ _ _ hl => hl
  refine Run.Meets.bind (kept_setup hv hfile _ _) ?_ fun _ _ hl => hl
  intro _ l hl
  unfold Run.route Log.route
  dsimp only
  split <;> exact ⟨hl.confined, hl.agree⟩

theorem kept_refuse (what : String) (d : Diagnostic) : Meets (Kept P fs) (refuse what d) fun r l =>
    Kept P fs l ∧ ∃ e, r = .ok e ∧ e.exit = 1 := by
  have hsay : Meets (Kept P fs) (Run.say (what ++ ": " ++ d.text ++ "\n")) fun u l => Kept P fs l ∧ u = .ok () :=
    fun l hl => ⟨kept_say _ l hl, rfl⟩
  refine Run.Meets.bind hsay (fun _ l hl => ⟨hl.1, _, rfl, rfl⟩) ?_
  rintro e l ⟨-, ⟨⟩⟩

theorem kept_validate (j : Job) : Meets (Kept P fs) (validate p j) fun _ => Kept P fs := by
  refine Run.meets_ofExcept_bind (fun r _ => ?_) fun _ _ _ hl => hl
  refine Run.Meets.bind (kept_tell _) (fun _ => ?_) fun _ _ hl => hl
  dsimp only
  split
  · exact fun l hl => hl
  · refine Run.Meets.bind (kept_say _) (fun _ => ?_) fun _ _ hl => hl
    exact Run.Meets.bind (kept_say _) (fun _ l hl => hl) fun _ _ hl => hl

/-! ## Writing -/

/-- A run has come to the point where the texts of a compilation are there to be written. -/
structure Compiled (p : Parsed) (fs : Files) (env : Options.Environment) (s : Options.Source) (r : Compilation)
    (directory : String) (texts : List (String × String)) : Prop where
  /-- The compilation is the one that the source and the options ask for, as they were when the run began. -/
  compiled : ∃ c gs j, (loaded p (begun p fs) env).outcome = .ok (s, c) ∧ Agree (LogPlace p fs env) fs gs ∧
    jobOf gs (loaded p (begun p fs) env).journal s c = .ok j ∧ j.run true = .ok r
  clean : r.errors = []
  directory : Options.pathOf s.directory = .ok directory
  texts : r.Gives s.dump texts

/-- All texts are in the files that a run has left, and no other file has changed. A text that is in a log file may have
messages after it. -/
def Delivered (P : FilePlace → Prop) (fs gs : Files) (directory : String) (texts : List (String × String)) : Prop :=
  (∀ x ∈ texts, ∃ more, gs.content? (placeOf (joinPath directory x.1)) = some (.text (x.2 ++ more)) ∧
    (P (placeOf (joinPath directory x.1)) ∨ more = "")) ∧
  Agree (fun q => P q ∨ ∃ x ∈ texts, q = placeOf (joinPath directory x.1)) fs gs

/-- How a run that was to compile ends. -/
structure Finished (p : Parsed) (fs : Files) (env : Options.Environment) (result : Except Fault Ending) (l : Log) :
    Prop where
  /-- A fault comes before anything is written, or from the file system when all texts are there. -/
  fault : ∀ f, result = .error f → Agree (LogPlace p fs env) fs l.files ∨
    ∃ s r directory texts gs, Compiled p fs env s r directory texts ∧ Agree (LogPlace p fs env) fs gs ∧
      (r.writeFiles gs directory s.dump).2 = .error f
  nothing : ∀ e, result = .ok e → e.exit ≠ 0 ∨ (p.get "validate-only").isSet = true →
    Agree (LogPlace p fs env) fs l.files
  everything : ∀ e, result = .ok e → e.exit = 0 → (p.get "validate-only").isSet = false →
    ∃ s r directory texts, Compiled p fs env s r directory texts ∧
      Delivered (LogPlace p fs env) fs l.files directory texts

theorem Delivered.told {l' : Log} {directory : String} {texts : List (String × String)}
    (h : Delivered P fs l.files directory texts) (ht : Log.Told P l l') : Delivered P fs l'.files directory texts := by
  refine ⟨fun x hx => ?_, h.2.trans (ht.agree.mono fun _ => .inl)⟩
  obtain ⟨more, hmore, hP⟩ := h.1 x hx
  obtain ⟨rest, hrest, hP'⟩ := ht.grows _ _ hmore
  refine ⟨more ++ rest, by rw [hrest, String.append_assoc], ?_⟩
  rcases hP with hP | rfl
  · exact .inl hP
  · exact hP'.imp_right fun h => by rw [h, String.append_empty]

theorem tell_faults {j : Journal} {f : Fault} (h : (Run.tell j l).2 = .error f) :
    ∃ e, .event e ∈ j ∧ e.direct = false ∧ e.told = .error f := by
  induction j generalizing l with
  | nil => cases h
  | cons e j ih =>
    unfold Run.tell at h
    split at h
    · obtain ⟨v, hv, hrest⟩ := ih h
      exact ⟨v, List.mem_cons_of_mem e hv, hrest⟩
    · rename_i g hentry
      cases h
      cases e with
      | error d => cases hentry
      | warning w => cases hentry
      | event v =>
        unfold Log.entry at hentry
        dsimp only at hentry
        split_ifs at hentry with hdirect hheard
        rcases bind_eq_error.mp hentry with htold | ⟨_, -, ⟨⟩⟩
        exact ⟨v, List.mem_cons_self, Bool.eq_false_iff.mpr hdirect, htold⟩

theorem tell_direct {j : Journal} (h : ∀ v, .event v ∈ j → v.direct = true) (l : Log) : (Run.tell j l).2 = .ok () := by
  cases hresult : (Run.tell j l).2 with
  | ok u => rfl
  | error f =>
    obtain ⟨v, hv, hdirect, -⟩ := tell_faults hresult
    cases hdirect.symm.trans (h v hv)

theorem tell_wrote (directory : String) (paths : List String) (l : Log) : (Run.tell
    (.event (.wrote paths.length directory) :: paths.map fun path => .event (.wroteFile path)) l).2 = .ok () := by
  -- What is told about the files does not come from the passes.
  refine tell_direct (fun v hv => ?_) l
  rcases List.mem_cons.mp hv with hv | hv
  · cases hv
    rfl
  · obtain ⟨path, -, hpath⟩ := List.mem_map.mp hv
    cases hpath
    rfl

theorem gives_of_printed {j : Job} {r : Compilation} {text : String} (hr : j.run true = .ok r) (hs : r.success = true)
    (htext : printed p s r = .ok text) : ∃ texts, r.Gives s.dump texts := by
  obtain ⟨_, net, -, -, -, ha⟩ := compile_accepts hr hs
  obtain ⟨sources, hsources, -⟩ := ha.sources
  cases hdump : s.dump with
  | false => exact ⟨_, sources, hsources, rfl⟩
  | true =>
    obtain ⟨_, htable, -⟩ := bind_eq_ok.mp htext
    unfold table at htable
    rw [ha.network, hdump] at htable
    obtain ⟨text, htext, -⟩ := map_eq_ok.mp htable
    exact ⟨_, sources, hsources, _, text, ha.network, htext, rfl⟩

theorem finished_of_kept {l : Log} (h : Kept (LogPlace p fs env) fs l) {result : Except Fault Ending}
    (hresult : ∀ e, result = .ok e → e.exit ≠ 0 ∨ (p.get "validate-only").isSet = true) :
    Finished p fs env result l where
  fault _ _ := .inl h.agree
  nothing _ _ _ := h.agree
  everything e he hexit hvalidate := by
    rcases hresult e he with hne | hset
    · exact absurd hexit hne
    · exact absurd (hvalidate.symm.trans hset) Bool.false_ne_true

theorem finished_of_error (f : Fault) (l : Log) (h : Kept (LogPlace p fs env) fs l) : Finished p fs env (.error f) l :=
  finished_of_kept h nofun

/-- What writing the texts of a compilation leaves. -/
structure Written (p : Parsed) (fs : Files) (env : Options.Environment) (directory : String)
    (texts : List (String × String)) (result : Except Fault (List String)) (l : Log) : Prop where
  fault : ∀ f, result = .error f → Finished p fs env (.error f) l
  held : ∀ paths, result = .ok paths →
    l.Confined (LogPlace p fs env) ∧ Delivered (LogPlace p fs env) fs l.files directory texts

theorem written_change {r : Compilation} {directory : String} {texts : List (String × String)}
    (h : Compiled p fs env s r directory texts) :
    Meets (Kept (LogPlace p fs env) fs) (Run.change fun fs => r.writeFiles fs directory s.dump)
      (Written p fs env directory texts) := by
  refine Run.meets_change fun l hl gs result hw => ⟨?_, ?_⟩
  · rintro f rfl
    refine ⟨?_, nofun, nofun⟩
    rintro _ ⟨⟩
    exact .inr ⟨s, r, directory, texts, l.files, h, hl.agree, by rw [hw]⟩
  · rintro paths rfl
    obtain ⟨hheld, hrest⟩ := h.texts.writeFiles_content hw
    refine ⟨hl.confined, fun x hx => ⟨"", ?_, .inr rfl⟩, ?_⟩
    · rw [String.append_empty]
      exact hheld x hx
    · exact (hl.agree.mono fun _ => .inl).trans (hrest.mono fun _ => .inr)

theorem finished_build {c : Config} {gs : Files} {j : Job} (hv : (p.get "validate-only").isSet = false)
    (hloaded : (loaded p (begun p fs) env).outcome = .ok (s, c)) (hgs : Agree (LogPlace p fs env) fs gs)
    (hj : jobOf gs (loaded p (begun p fs) env).journal s c = .ok j) :
    Meets (Kept (LogPlace p fs env) fs) (build p s j) (Finished p fs env) := by
  refine Run.Meets.bind (kept_tell _) (fun _ => ?_) finished_of_error
  refine Run.meets_ofExcept_bind (fun r hr => ?_) fun f l _ hl => finished_of_error f l hl
  refine Run.Meets.bind (kept_tell _) (fun _ => ?_) finished_of_error
  refine Run.meets_ofExcept_bind (fun text htext => ?_) fun f l _ hl => finished_of_error f l hl
  split
  · exact fun l hl => finished_of_kept hl fun e he => by cases he; exact .inl Nat.one_ne_zero
  · rename_i hsuccess
    have hsuccess : r.success = true := by simpa using hsuccess
    refine Run.meets_ofExcept_bind (fun directory hdirectory => ?_) fun f l _ hl => finished_of_error f l hl
    obtain ⟨texts, htexts⟩ := gives_of_printed hr hsuccess htext
    have hcompiled : Compiled p fs env s r directory texts :=
      ⟨⟨c, gs, j, hloaded, hgs, hj, hr⟩, List.isEmpty_iff.mp hsuccess, hdirectory, htexts⟩
    refine Run.Meets.bind (written_change hcompiled) (fun paths => ?_) fun f _ hl => hl.fault f rfl
    have hrest : Meets (Written p fs env directory texts (.ok paths))
        (Run.tell (.event (.wrote paths.length (plainPath directory)) :: paths.map fun path => .event (.wroteFile path)))
        fun u l => u = .ok () ∧ Delivered (LogPlace p fs env) fs l.files directory texts := by
      intro l hl
      obtain ⟨hconfined, hdelivered⟩ := hl.held paths rfl
      exact ⟨tell_wrote _ _ l, hdelivered.told (tell_told hconfined _)⟩
    refine Run.Meets.bind hrest ?_ ?_
    · refine fun _ => Run.meets_pure fun l hl => ⟨?_, ?_, fun _ _ _ _ => ⟨s, r, directory, texts, hcompiled, hl.2⟩⟩
      · rintro f ⟨⟩
      · rintro e ⟨⟩ (hne | hset)
        · exact absurd rfl hne
        · exact absurd (hv.symm.trans hset) Bool.false_ne_true
    · rintro e l ⟨⟨⟩, -⟩

theorem finished_proceed {c : Config} (hloaded : (loaded p (begun p fs) env).outcome = .ok (s, c)) :
    Meets (Kept (LogPlace p fs env) fs) (proceed p (loaded p (begun p fs) env).journal s c) (Finished p fs env) := by
  have hplaces : ∀ q, LogFileOf s.logFile q → LogPlace p fs env q := fun q hq => .inr ⟨s, c, hloaded, hq⟩
  refine Run.Meets.bind (kept_resume hplaces) (fun _ => ?_) finished_of_error
  split
  · refine Run.Meets.bind (kept_say _) (fun _ l hl => ?_) finished_of_error
    exact finished_of_kept hl fun e he => by cases he; exact .inl Nat.one_ne_zero
  · refine Run.meets_files_bind fun gs => ?_
    split
    · refine fun l hl => ?_
      obtain ⟨hkept, e, he, hexit⟩ := kept_refuse "Cannot read source" _ l hl.1
      exact finished_of_kept hkept fun e' he' => by cases he.symm.trans he'; exact .inl (by omega)
    · exact fun l hl => finished_of_error _ l hl.1
    · rename_i j hj
      split
      · rename_i hset
        exact fun l hl => finished_of_kept (kept_validate j l hl.1) fun _ _ => .inr hset
      · rename_i hset
        rintro l ⟨hl, rfl⟩
        exact finished_build (Bool.eq_false_iff.mpr hset) hloaded hl.agree hj l hl

theorem finished_withOptions : Meets (Kept (LogPlace p fs env) fs) (withOptions p (loaded p (begun p fs) env))
    (Finished p fs env) := by
  refine Run.Meets.bind (kept_tell _) (fun _ => ?_) finished_of_error
  split
  · intro l hl
    obtain ⟨hkept, e, he, hexit⟩ := kept_refuse "Invalid options" _ l hl
    exact finished_of_kept hkept fun e' he' => by cases he.symm.trans he'; exact .inl (by omega)
  · exact finished_of_error _
  · rename_i hloaded
    exact finished_proceed hloaded

theorem finished_compiling : Meets (· = { files := fs }) (compiling p env) (Finished p fs env) := by
  have hstart : Meets (· = { files := fs }) (start p) fun _ l => Kept (LogPlace p fs env) fs l ∧ l.files = begun p fs := by
    rintro _ rfl
    exact ⟨kept_start (fun q hq => .inl hq) _ (kept_files _ fs), rfl⟩
  refine Run.Meets.bind hstart (fun _ => ?_) fun f l hl => finished_of_error f l hl.1
  refine Run.meets_files_bind fun gs => ?_
  rintro l ⟨⟨hl, hbegun⟩, hgs⟩
  obtain rfl : gs = begun p fs := hgs.symm.trans hbegun
  exact finished_withOptions l hl

/-- A generated file from before, and a source whose second layer does not fit the first. -/
def filesBefore : Files := ⟨[
  (["out", "main.cpp"], .file (.text "#include \"data-types.h\"\n")),
  (["net.py"], .file (.text "model.add(Dense(2, input_shape=(3,)))\nmodel.add(Conv2D(2, kernel_size=3))\n"))]⟩

def refusedArguments : List String := ["compile", "net.py", "--dump-layers", "-d", "out", "--log-level=critical"]

/-- The arguments ask for no log file, and for a compilation that ends with this code. -/
def endsUnlogged (args : List String) (fs : Files) (exit : Nat) : Bool :=
  match request args with
  | .ok (.compile p) => match (loaded p (begun p fs) []).outcome, (main args [] { files := fs }).2 with
    | .ok (s, _), .ok e => (p.get "log-location" matches .null) && (s.logFile matches .null) && e.exit == exit
    | _, _ => false
  | _ => false

theorem not_logFileOf {v : Value} (h : (v matches .null) = true) (q : FilePlace) : ¬ LogFileOf v q := by
  rintro ⟨path, hpath, -⟩
  cases v <;> cases h
  cases hpath

theorem endsUnlogged_spec {args : List String} {fs : Files} {exit : Nat} (h : endsUnlogged args fs exit = true) :
    ∃ p e, request args = .ok (.compile p) ∧ (main args [] { files := fs }).2 = .ok e ∧ e.exit = exit ∧
      ∀ q, ¬ LogPlace p fs [] q := by
  unfold endsUnlogged at h
  split at h
  · rename_i p hp
    split at h
    · rename_i s c e hs he
      obtain ⟨hfiles, hexit⟩ := Bool.and_eq_true_iff.mp h
      obtain ⟨hlocation, hfile⟩ := Bool.and_eq_true_iff.mp hfiles
      refine ⟨p, e, hp, he, beq_iff_eq.mp hexit, ?_⟩
      rintro q (hq | ⟨s', c', hs', hq⟩)
      · exact not_logFileOf hlocation q hq
      · cases hs.symm.trans hs'
        exact not_logFileOf hfile q hq
    · cases h
  · cases h

end Command
end LayerLoops
