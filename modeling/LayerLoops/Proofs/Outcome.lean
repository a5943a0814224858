import LayerLoops.Journal
import Mathlib.Data.List.Forall2

/-! # Outcomes of checks and steps

What a sequence of checks or steps that comes to an end says about each of its parts. -/

namespace LayerLoops

variable {ε α β : Type} {a : α} {as : List α} {b : β} {bs : List β} {e : ε} {n : Int} {x : Except ε α}

@[simp] theorem bind_eq_ok {f : α → Except ε β} : x >>= f = .ok b ↔ ∃ a, x = .ok a ∧ f a = .ok b := by
  cases x <;> simp [bind, Except.bind]

theorem bind_eq_error {f : α → Except ε β} : x >>= f = .error e ↔ x = .error e ∨ ∃ a, x = .ok a ∧ f a = .error e := by
  cases x <;> simp [bind, Except.bind]

@[simp] theorem pure_eq_ok {b : α} : (pure a : Except ε α) = .ok b ↔ a = b := by
  simp [pure, Except.pure]

@[simp] theorem throw_ne_ok : ¬ (throw e : Except ε α) = .ok a := by
  simp [throw, throwThe, MonadExceptOf.throw]

@[simp] theorem map_eq_ok {f : α → β} : x.map f = .ok b ↔ ∃ a, x = .ok a ∧ f a = b := by
  cases x <;> simp [Except.map]

theorem mapError_ok_iff {ε' : Type} (x : Except ε α) (f : ε → ε') (a : α) :
    x.mapError f = .ok a ↔ x = .ok a := by
  cases x <;> simp [Except.mapError]

theorem mapM_eq_ok {f : α → Except ε β} : as.mapM f = .ok bs ↔ List.Forall₂ (fun a b => f a = .ok b) as bs := by
  induction as generalizing bs with
  | nil => rw [List.mapM_nil, pure_eq_ok, List.forall₂_nil_left_iff, eq_comm]
  | cons a as ih =>
    simp only [List.mapM_cons, bind_eq_ok, pure_eq_ok, ih, List.forall₂_cons_left_iff]
    grind

theorem exists_mem_of_mapM {f : α → Except ε β} (h : as.mapM f = .ok bs) (hb : b ∈ bs) : ∃ a ∈ as, f a = .ok b := by
  rw [mapM_eq_ok] at h
  induction h with
  | nil => cases hb
  | @cons a _ as _ ha _ ih =>
    rcases List.mem_cons.mp hb with rfl | hb
    · exact ⟨a, List.mem_cons_self, ha⟩
    · obtain ⟨c, hc, hf⟩ := ih hb
      exact ⟨c, List.mem_cons_of_mem a hc, hf⟩

theorem exists_ok_of_mapM {f : α → Except ε β} (h : as.mapM f = .ok bs) (ha : a ∈ as) : ∃ b ∈ bs, f a = .ok b := by
  rw [mapM_eq_ok] at h
  induction h with
  | nil => cases ha
  | @cons _ b _ bs hb _ ih =>
    rcases List.mem_cons.mp ha with rfl | ha
    · exact ⟨b, List.mem_cons_self, hb⟩
    · obtain ⟨c, hc, hf⟩ := ih ha
      exact ⟨c, List.mem_cons_of_mem b hc, hf⟩

theorem mem_iff_of_mapM {f : α → Except ε β} {as : List α} {bs : List β} (h : as.mapM f = .ok bs) {b : β} :
    b ∈ bs ↔ ∃ a ∈ as, f a = .ok b := by
  refine ⟨exists_mem_of_mapM h, ?_⟩
  rintro ⟨a, ha, hf⟩
  obtain ⟨c, hc, hg⟩ := exists_ok_of_mapM h ha
  cases hf.symm.trans hg
  exact hc

theorem map_of_mapM {γ : Type} {f : α → Except ε β} (h : as.mapM f = .ok bs) {p : β → γ} {q : α → γ}
    (hpq : ∀ a b, f a = .ok b → p b = q a) : bs.map p = as.map q := by
  rw [mapM_eq_ok] at h
  induction h with
  | nil => rfl
  | cons hab _ ih => rw [List.map_cons, List.map_cons, ih, hpq _ _ hab]

theorem mapM_returns {f : α → Except ε β} (h : ∀ a ∈ as, ∃ b, f a = .ok b) : ∃ bs, as.mapM f = .ok bs := by
  induction as with
  | nil => exact ⟨[], rfl⟩
  | cons a as ih =>
    obtain ⟨⟨b, hb⟩, hrest⟩ := List.forall_mem_cons.mp h
    obtain ⟨bs, hbs⟩ := ih hrest
    exact ⟨b :: bs, mapM_eq_ok.mpr (.cons hb (mapM_eq_ok.mp hbs))⟩

theorem exists_error_of_mapM {f : α → Except ε β} (h : as.mapM f = .error e) : ∃ a ∈ as, f a = .error e := by
  induction as with
  | nil => cases h
  | cons a as ih =>
    rw [List.mapM_cons] at h
    rcases bind_eq_error.mp h with h | ⟨b, -, h⟩
    · exact ⟨a, List.mem_cons_self, h⟩
    · rcases bind_eq_error.mp h with h | ⟨bs, -, ⟨⟩⟩
      obtain ⟨c, hc, hf⟩ := ih h
      exact ⟨c, List.mem_cons_of_mem a hc, hf⟩

theorem discard_eq_ok {u : Unit} : discard x = .ok u ↔ ∃ a, x = .ok a := by
  cases x <;> simp [discard, Functor.discard, Functor.mapConst, Except.map]

/-! ## Numbers that can be written -/

theorem Decimal.fits_of_lt_pow {k : Nat} (h : n.natAbs < Nat.pow 10 k) (hk : k ≤ Decimal.digitLimit) :
    Decimal.Fits n := by
  unfold Decimal.Fits Decimal.numeralBound
  -- The bound is never computed: only that it is a power of ten matters.
  generalize Decimal.digitLimit = m at hk
  exact Nat.lt_of_lt_of_le h (Nat.pow_le_pow_right (by decide) hk)

theorem Decimal.fits_of_lt_thousand (h : n.natAbs < 1000) : Decimal.Fits n :=
  Decimal.fits_of_lt_pow (k := 3) h (by decide)

theorem writable_eq_ok {m : Int} : writable m = .ok n ↔ m = n ∧ Decimal.Fits m := by
  unfold writable
  by_cases h : Decimal.Fits m <;> simp [h]

theorem Volume.writable_eq_ok {v w : Volume} : v.writable = .ok w ↔ v = w ∧ v.Fits := by
  unfold Volume.writable
  by_cases h : v.Fits <;> simp [h]

/-- The fault is that of an integer among `P` whose numeral is too long to be written. -/
def TooLong (P : Int → Prop) (f : Fault) : Prop := f = .numeralTooLong ∧ ∃ n, P n ∧ ¬ Decimal.Fits n

/-- There is a result, unless the numeral of an integer among `P` is too long. -/
def FailsLong (P : Int → Prop) (x : Except Fault α) : Prop := ∀ f, x = .error f → TooLong P f

section FailsLong

variable {P : Int → Prop}

theorem failsLong_ok (a : α) : FailsLong P (.ok a) := by
  rintro f ⟨⟩

theorem failsLong_writable {n : Int} (hn : P n) : FailsLong P (writable n) := by
  intro f hf
  unfold writable at hf
  split at hf
  · cases hf
  · rename_i hfits
    cases hf
    exact ⟨rfl, n, hn, hfits⟩

theorem FailsLong.bind {x : Except Fault α} {g : α → Except Fault β} (hx : FailsLong P x)
    (hg : ∀ a, x = .ok a → FailsLong P (g a)) : FailsLong P (x >>= g) := by
  intro f hf
  rcases bind_eq_error.mp hf with hf | ⟨a, ha, hf⟩
  · exact hx f hf
  · exact hg a ha f hf

theorem FailsLong.map {x : Except Fault α} (hx : FailsLong P x) (g : α → β) : FailsLong P (x.map g) := by
  cases x with
  | ok a => exact failsLong_ok (g a)
  | error e =>
    rintro f ⟨⟩
    exact hx _ rfl

theorem FailsLong.mapM {g : α → Except Fault β} {as : List α} (h : ∀ a ∈ as, FailsLong P (g a)) :
    FailsLong P (as.mapM g) := by
  intro f hf
  obtain ⟨a, ha, hf⟩ := exists_error_of_mapM hf
  exact h a ha f hf

end FailsLong

/-! ## Steps -/

namespace Step

variable {a : α} {b : β} {s : Step α} (d : Diagnostic) (e : Event) (w : Warning) (f : Unit → Step α) (u : Unit)

@[simp] theorem outcome_pure (a : α) : (pure a : Step α).outcome = .ok a := rfl

@[simp] theorem journal_pure (a : α) : (pure a : Step α).journal = [] := rfl

theorem outcome_bind_eq_ok {f : α → Step β} :
    (s >>= f).outcome = .ok b ↔ ∃ a, s.outcome = .ok a ∧ (f a).outcome = .ok b := by
  change (s.andThen f).outcome = .ok b ↔ _
  unfold andThen
  cases s.outcome <;> simp

@[simp] theorem outcome_record_bind : (record d >>= f).outcome = (f ()).outcome := rfl

@[simp] theorem outcome_warn_bind : (warn w >>= f).outcome = (f ()).outcome := rfl

@[simp] theorem outcome_tell_bind : (tell e >>= f).outcome = (f ()).outcome := rfl

theorem bind_of_ok {f : α → Step β} (h : s.outcome = .ok a) :
    s >>= f = ⟨s.journal ++ (f a).journal, (f a).outcome⟩ := by
  change s.andThen f = _
  simp only [andThen, h]

/-- The step comes to an end, or ends in a fault that is a `Q`. -/
def Faults (Q : Fault → Prop) (s : Step α) : Prop := ∀ f, s.outcome = .error f → Q f

variable {Q : Fault → Prop}

theorem faults_of_ok (h : s.outcome = .ok a) : s.Faults Q := by
  intro f hf
  rw [h] at hf
  cases hf

theorem faults_pure (a : α) : (pure a : Step α).Faults Q := faults_of_ok rfl

theorem faults_ofExcept {x : Except Fault α} (h : ∀ f, x = .error f → Q f) : (ofExcept x).Faults Q := h

theorem faults_ofDiagnostic {x : Except Diagnostic α} (h : ∀ d, x = .error d → Q (.reported d)) :
    (ofDiagnostic x).Faults Q := by
  intro f hf
  cases x with
  | ok a => cases hf
  | error d =>
    cases hf
    exact h d rfl

theorem Faults.bind {f : α → Step β} (hs : s.Faults Q) (hf : ∀ a, s.outcome = .ok a → (f a).Faults Q) :
    (s >>= f).Faults Q := by
  intro e he
  cases h : s.outcome with
  | ok a =>
    rw [bind_of_ok h] at he
    exact hf a h e he
  | error f' =>
    change (s.andThen f).outcome = _ at he
    simp only [andThen, h] at he
    cases he
    exact hs _ h

theorem Faults.mapM {f : α → Step β} (hf : ∀ a, (f a).Faults Q) (as : List α) : (as.mapM f).Faults Q := by
  have hloop : ∀ bs, (List.mapM.loop f as bs).Faults Q := by
    induction as with
    | nil => exact fun bs => faults_pure bs.reverse
    | cons a as ih => exact fun bs => Faults.bind (hf a) fun b _ => ih (b :: bs)
  exact hloop []

/-- The step comes to an end or ends in a diagnostic, and in no other fault. -/
def Reports (s : Step α) : Prop := s.Faults fun f => ∃ d, f = .reported d

theorem reports_of_ok (h : s.outcome = .ok a) : s.Reports := faults_of_ok h

theorem reports_pure (a : α) : (pure a : Step α).Reports := reports_of_ok rfl

theorem reports_fail : (fail (.reported d) : Step α).Reports := by
  rintro f ⟨⟩
  exact ⟨d, rfl⟩

theorem Reports.bind {f : α → Step β} (hs : s.Reports) (hf : ∀ a, s.outcome = .ok a → (f a).Reports) :
    (s >>= f).Reports := Faults.bind hs hf

/-- All entries that the step adds to the journal are `R`. -/
def Writes (R : Entry → Prop) (s : Step α) : Prop := ∀ e ∈ s.journal, R e

variable {R : Entry → Prop}

theorem writes_pure (a : α) : (pure a : Step α).Writes R := fun _ he => nomatch he

theorem writes_ofExcept (x : Except Fault α) : (ofExcept x).Writes R := fun _ he => nomatch he

theorem writes_ofDiagnostic (x : Except Diagnostic α) : (ofDiagnostic x).Writes R := fun _ he => nomatch he

theorem writes_write {e : Entry} (h : R e) : (write e).Writes R := fun _ he => List.mem_singleton.mp he ▸ h

theorem Writes.bind {f : α → Step β} (hs : s.Writes R) (hf : ∀ a, s.outcome = .ok a → (f a).Writes R) :
    (s >>= f).Writes R := by
  cases h : s.outcome with
  | ok a =>
    rw [bind_of_ok h]
    exact List.forall_mem_append.mpr ⟨hs, hf a h⟩
  | error e =>
    have hstop : s >>= f = ⟨s.journal, .error e⟩ := by
      change s.andThen f = _
      simp only [andThen, h]
    rw [hstop]
    exact hs

theorem Writes.mapM {f : α → Step β} (hf : ∀ a, (f a).Writes R) (as : List α) : (as.mapM f).Writes R := by
  have hloop : ∀ bs, (List.mapM.loop f as bs).Writes R := by
    induction as with
    | nil => exact fun bs => writes_pure bs.reverse
    | cons a as ih => exact fun bs => Writes.bind (hf a) fun b _ => ih (b :: bs)
  exact hloop []

/-- The step comes to an end with `a`, and records no error. -/
def Passes (s : Step α) (a : α) : Prop := s.outcome = .ok a ∧ Journal.errors s.journal = []

@[simp] theorem passes_pure {b : α} : (pure a : Step α).Passes b ↔ a = b := by
  simp [Passes, Journal.errors]

@[simp] theorem not_passes_fail (f : Fault) (a : α) : ¬ (fail f : Step α).Passes a := by
  rintro ⟨⟨⟩, -⟩

@[simp] theorem not_passes_record : ¬ (record d).Passes u := by
  rintro ⟨-, ⟨⟩⟩

@[simp] theorem passes_warn : (warn w).Passes u := ⟨rfl, rfl⟩

@[simp] theorem passes_tell : (tell e).Passes u := ⟨rfl, rfl⟩

@[simp] theorem passes_ofExcept {x : Except Fault α} : (ofExcept x).Passes a ↔ x = .ok a :=
  and_iff_left rfl

@[simp] theorem passes_bind {f : α → Step β} : (s >>= f).Passes b ↔ ∃ a, s.Passes a ∧ (f a).Passes b := by
  cases h : s.outcome with
  | ok a => simp [Passes, bind_of_ok h, h, Journal.errors_append]; tauto
  | error e =>
    change (s.andThen f).Passes b ↔ _
    simp [Passes, andThen, h]

@[simp] theorem passes_recover {s : Step Unit} {u : Unit} : s.recover.Passes u ↔ s.Passes u := by
  unfold recover
  split
  · rename_i d h
    simp [Passes, h, Journal.errors]
  · rfl

/-- The step comes to an end with this value, these errors and these warnings. -/
structure Yields (s : Step α) (a : α) (es : List Diagnostic) (ws : List Warning) : Prop where
  outcome : s.outcome = .ok a
  errors : s.journal.errors = es
  warnings : s.journal.warnings = ws

theorem yields_pure (a : α) : (pure a : Step α).Yields a [] [] := ⟨rfl, rfl, rfl⟩

theorem yields_record : (record d).Yields () [d] [] := ⟨rfl, rfl, rfl⟩

theorem yields_warn : (warn w).Yields () [] [w] := ⟨rfl, rfl, rfl⟩

theorem yields_tell : (tell e).Yields () [] [] := ⟨rfl, rfl, rfl⟩

theorem Yields.bind {f : α → Step β} {es es' : List Diagnostic} {ws ws' : List Warning} (hs : s.Yields a es ws)
    (hf : (f a).Yields b es' ws') : (s >>= f).Yields b (es ++ es') (ws ++ ws') := by
  rw [bind_of_ok hs.outcome]
  refine ⟨hf.outcome, ?_, ?_⟩
  · rw [Journal.errors_append, hs.errors, hf.errors]
  · rw [Journal.warnings_append, hs.warnings, hf.warnings]

theorem Yields.map {es : List Diagnostic} {ws : List Warning} (hs : s.Yields a es ws) (f : α → β) :
    (s >>= fun a => pure (f a)).Yields (f a) es ws := by
  simpa using hs.bind (f := fun a => pure (f a)) (yields_pure (f a))

end Step
end LayerLoops
