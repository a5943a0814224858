import LayerLoops.Run

/-! # Contracts of parts of a run

A contract says what a part of a run leaves behind, with a result or with a fault. Parts in sequence meet one if
the first leaves what the second asks for, and if what holds at a fault of the first is enough at the end. -/

namespace LayerLoops.Run

variable {α β : Type} {pre : Log → Prop}

/-- From every log that meets `pre`, the part ends in a result and a log that meet `post`. -/
def Meets (pre : Log → Prop) (x : Run α) (post : Except Fault α → Log → Prop) : Prop :=
  ∀ l, pre l → post (x l).2 (x l).1

variable {post : Except Fault β → Log → Prop}

theorem meets_pure {b : β} (h : ∀ l, pre l → post (.ok b) l) : Meets pre (pure b) post := h

theorem bind_of_ok {x : Run α} {l : Log} {a : α} (h : (x l).2 = .ok a) (f : α → Run β) :
    (x >>= f) l = f a (x l).1 := by
  change x.andThen f l = _
  unfold andThen
  generalize x l = y at h ⊢
  obtain ⟨l', r⟩ := y
  cases h
  rfl

theorem bind_of_error {x : Run α} {l : Log} {e : Fault} (h : (x l).2 = .error e) (f : α → Run β) :
    (x >>= f) l = ((x l).1, .error e) := by
  change x.andThen f l = _
  unfold andThen
  generalize x l = y at h ⊢
  obtain ⟨l', r⟩ := y
  cases h
  rfl

theorem Meets.bind {x : Run α} {f : α → Run β} {mid : Except Fault α → Log → Prop} (hx : Meets pre x mid)
    (hok : ∀ a, Meets (mid (.ok a)) (f a) post) (herror : ∀ e l, mid (.error e) l → post (.error e) l) :
    Meets pre (x >>= f) post := by
  intro l hl
  have hmid := hx l hl
  cases h : (x l).2 with
  | ok a =>
    rw [h] at hmid
    rw [bind_of_ok h]
    exact hok a _ hmid
  | error e =>
    rw [h] at hmid
    rw [bind_of_error h]
    exact herror e _ hmid

theorem meets_ofExcept_bind {x : Except Fault α} {f : α → Run β} (hok : ∀ a, x = .ok a → Meets pre (f a) post)
    (herror : ∀ e l, x = .error e → pre l → post (.error e) l) : Meets pre (ofExcept x >>= f) post := by
  cases x with
  | ok a => exact hok a rfl
  | error e => exact fun l hl => herror e l rfl hl

theorem meets_files_bind {f : Files → Run β} (h : ∀ fs, Meets (fun l => pre l ∧ l.files = fs) (f fs) post) :
    Meets pre (files >>= f) post := fun l hl => h l.files l ⟨hl, rfl⟩

theorem meets_change {f : Files → Files × Except Fault β}
    (h : ∀ l, pre l → ∀ fs r, f l.files = (fs, r) → post r { l with files := fs }) : Meets pre (change f) post :=
  fun l hl => h l hl _ _ rfl

end LayerLoops.Run
