import LayerLoops.Run
import LayerLoops.Proofs.FileTree

/-! # What logging changes

Messages only ever grow the files of sinks. Setting up a log changes no file but the one it asks for. -/

namespace LayerLoops

open Files (Agree Grows)

variable {P : FilePlace → Prop} {fs : Files} {l l' l'' : Log}

namespace Log

/-- A log file that is asked for by a path is at one of these places. -/
def FileAt (path : String) (q : FilePlace) : Prop := q = placeOf path ∨ filePlace path = .ok q

/-- The sinks write to no file outside the places `P`. -/
def Confined (P : FilePlace → Prop) (l : Log) : Prop := ∀ s ∈ l.sinks, ∀ q, s.target = .file q → P q

/-- Messages were told, to files at the places `P` only. -/
structure Told (P : FilePlace → Prop) (l l' : Log) : Prop where
  sinks : l'.sinks = l.sinks
  agree : Agree P l.files l'.files
  grows : Grows P l.files l'.files

theorem Told.refl (P : FilePlace → Prop) (l : Log) : Told P l l := ⟨rfl, Agree.refl P _, Grows.refl P _⟩

theorem Told.trans (h₁ : Told P l l') (h₂ : Told P l' l'') : Told P l l'' :=
  ⟨h₂.sinks.trans h₁.sinks, h₁.agree.trans h₂.agree, h₁.grows.trans h₂.grows⟩

theorem Told.confined (h : Told P l l') (hl : l.Confined P) : l'.Confined P := by
  unfold Confined
  rw [h.sinks]
  exact hl

theorem told_say (P : FilePlace → Prop) (l : Log) (text : String) : Told P l (l.say text) :=
  ⟨rfl, Agree.refl P _, Grows.refl P _⟩

theorem told_writeTo {t : Target} (ht : ∀ q, t = .file q → P q) (l : Log) (text : String) :
    Told P l (l.writeTo t text) := by
  cases t with
  | console => exact told_say P l text
  | elsewhere => exact .refl P l
  | file q =>
    have hq : ∀ r, r = q → P r := fun r hr => hr ▸ ht q rfl
    exact ⟨rfl, (Files.agree_appendAt l.files q text).mono hq, (Files.grows_appendAt l.files q text).mono hq⟩

theorem told_serve {sinks : List Sink} (hsinks : ∀ s ∈ sinks, ∀ q, s.target = .file q → P q) (l : Log) (r : Record) :
    Told P l (sinks.foldl (fun l s =>
      if (s.threshold : Int) ≤ r.level then l.writeTo s.target ((line s r).getD "") else l) l) := by
  induction sinks generalizing l with
  | nil => exact .refl P l
  | cons s sinks ih =>
    obtain ⟨hs, hsinks⟩ := List.forall_mem_cons.mp hsinks
    rw [List.foldl_cons]
    refine Told.trans ?_ (ih hsinks _)
    split
    · exact told_writeTo hs l _
    · exact .refl P l

theorem told_write (hl : l.Confined P) (r : Record) : Told P l (l.write r) := told_serve hl l r

theorem told_pass (hl : l.Confined P) (level : Int) (message : String) : Told P l (l.pass level message) := by
  unfold pass
  split
  · exact .refl P l
  · split
    · exact told_write hl _
    · exact told_say P l _

theorem told_entry (hl : l.Confined P) {e : Entry} (h : l.entry e = .ok l') : Told P l l' := by
  cases e with
  | error d =>
    cases h
    exact told_pass hl _ _
  | warning w =>
    cases h
    exact told_pass hl _ _
  | event e =>
    unfold entry at h
    dsimp only at h
    split_ifs at h
    · cases h
      exact told_write hl _
    · obtain ⟨text, -, h⟩ := bind_eq_ok.mp h
      cases h
      exact told_pass hl _ _
    · cases h
      exact .refl P l

theorem cleared_agree {gs : Files} {path : String} {append : Bool} (h : cleared fs path append = .ok gs) :
    Agree (· = placeOf path) fs gs := by
  obtain ⟨present, -, h⟩ := bind_eq_ok.mp h
  split at h
  · exact Files.agree_remove h
  · cases h
    exact Agree.refl _ fs

theorem openFile_agree (fs : Files) (path : String) (append : Bool) :
    Agree (FileAt path) fs (openFile fs path append).1 := by
  unfold openFile
  split
  · exact Agree.refl _ fs
  · rename_i made hmade
    have hmade : Agree (FileAt path) fs made := Files.agree_of_eq (Files.makeDirectory_content hmade)
    split
    · exact hmade
    · rename_i rest hrest
      have hrest : Agree (FileAt path) fs rest := hmade.trans ((cleared_agree hrest).mono fun _ => .inl)
      split
      · exact hrest
      · rename_i place hplace
        split
        · exact hrest
        · exact hrest
        · exact hrest
        · exact hrest.trans ((Files.agree_appendAt rest place "").mono fun q hq => .inr (hq ▸ hplace))

theorem openFile_place {gs : Files} {path : String} {append : Bool} {place : FilePlace}
    (h : openFile fs path append = (gs, .ok place)) : FileAt path place := by
  unfold openFile at h
  split at h
  · cases h
  · split at h
    · cases h
    · split at h
      · cases h
      · rename_i q hq
        split at h <;> cases h
        exact .inr hq

theorem setup_keeps {file : Option String} (hP : ∀ path ∈ file, ∀ q, FileAt (plainPath path) q → P q) (l : Log)
    (level : String) (append : Bool) (tag : String) :
    (l.setup level file append tag).1.Confined P ∧ Agree P l.files (l.setup level file append tag).1.files := by
  unfold setup
  dsimp only
  split
  · exact ⟨nofun, Agree.refl P _⟩
  · exact ⟨nofun, Agree.refl P _⟩
  · cases file with
    | none => exact ⟨by simp [Confined], Agree.refl P _⟩
    | some path =>
      have hP := hP path (Option.mem_some_self path)
      dsimp only
      generalize hopened : openFile l.files (plainPath path) append = opened
      obtain ⟨files, result⟩ := opened
      have hagree : Agree P l.files files := by
        have := openFile_agree l.files (plainPath path) append
        rw [hopened] at this
        exact this.mono hP
      cases result with
      | error f => exact ⟨by simp [Confined], hagree⟩
      | ok place =>
        have hplace : P place := hP place (openFile_place hopened)
        exact ⟨by simpa [Confined] using hplace, hagree⟩

end Log

end LayerLoops
