import LayerLoops.Proofs.Programs

/-! # Memories that a run goes through

A run may stop before its end, where the text has no meaning. What every action keeps holds of each memory that the
run comes through, and the actions of trees are their statements. -/

namespace LayerLoops.Code

variable {ρ : Scope} {μ : Multipliers}

/-- A run of the actions from one memory, as far as it gets, comes through another one. -/
inductive Reaches (μ : Multipliers) : List Action → Memory → Memory → Prop
  | start {as : List Action} {σ : Memory} : Reaches μ as σ σ
  | step {a : Action} {as : List Action} {σ σ₁ σ' : Memory} :
      a.run μ σ = some σ₁ → Reaches μ as σ₁ σ' → Reaches μ (a :: as) σ σ'

section Reached

variable {as bs : List Action} {σ σ' : Memory}

theorem Reaches.of_runAll (h : runAll μ as σ = some σ') : Reaches μ as σ σ' := by
  induction as generalizing σ with
  | nil =>
    cases h
    exact .start
  | cons a as ih =>
    obtain ⟨σ₁, ha, h⟩ := Option.bind_eq_some_iff.mp h
    exact .step ha (ih h)

theorem Reaches.append_cases (h : Reaches μ (as ++ bs) σ σ') :
    Reaches μ as σ σ' ∨ ∃ σ₁, runAll μ as σ = some σ₁ ∧ Reaches μ bs σ₁ σ' := by
  induction as generalizing σ with
  | nil => exact .inr ⟨σ, rfl, h⟩
  | cons a as ih =>
    cases h with
    | start => exact .inl .start
    | step ha h =>
      obtain h | ⟨σ₁, hrun, h⟩ := ih h
      · exact .inl (.step ha h)
      · exact .inr ⟨σ₁, by rw [runAll, ha]; exact hrun, h⟩

theorem Reaches.invariant {I : Memory → Prop}
    (hI : ∀ a ∈ as, ∀ σ σ', I σ → a.run μ σ = some σ' → I σ') (h : Reaches μ as σ σ') (hσ : I σ) : I σ' := by
  induction h with
  | start => exact hσ
  | @step a _ _ _ _ ha _ ih =>
    refine ih (fun b hb => hI b (List.mem_cons_of_mem a hb)) ?_
    exact hI a List.mem_cons_self _ _ hσ ha

theorem runAll_establishes {I W : Memory → Prop} (hI : ∀ a ∈ as, ∀ σ σ', I σ → a.run μ σ = some σ' → I σ')
    (hW : ∀ a ∈ as, ∀ σ σ', I σ → W σ → a.run μ σ = some σ' → W σ') {a : Action} (ha : a ∈ as)
    (hset : ∀ σ σ', I σ → a.run μ σ = some σ' → W σ') (hσ : I σ) (h : runAll μ as σ = some σ') : W σ' := by
  obtain ⟨before, after, rfl⟩ := List.append_of_mem ha
  rw [runAll_append] at h
  obtain ⟨σ₁, h₁, h⟩ := Option.bind_eq_some_iff.mp h
  obtain ⟨σ₂, h₂, h⟩ := Option.bind_eq_some_iff.mp h
  have hσ₁ : I σ₁ := (Reaches.of_runAll h₁).invariant (fun b hb => hI b (by simp [hb])) hσ
  have hσ₂ : I σ₂ ∧ W σ₂ := ⟨hI a ha _ _ hσ₁ h₂, hset _ _ hσ₁ h₂⟩
  refine ((Reaches.of_runAll h).invariant (I := fun σ => I σ ∧ W σ) (fun b hb τ τ' hτ hb' => ?_) hσ₂).2
  have hmem : b ∈ before ++ a :: after := by simp [hb]
  exact ⟨hI b hmem τ τ' hτ.1 hb', hW b hmem τ τ' hτ.1 hτ.2 hb'⟩

end Reached

/-! ## Statements of actions -/

mutual

theorem mem_stmts_of_mem_actions : ∀ {t : Tree} {ρ ρ' : Scope} {st : Stmt},
    .perform ρ' st ∈ t.actions ρ → st ∈ t.stmts
  | .stmt s, ρ, ρ', st, h => by
    simp only [Tree.actions, List.mem_singleton, Action.perform.injEq] at h
    simp [Tree.stmts, h.2]
  | .blank, _, _, _, h => by simp [Tree.actions] at h
  | .loop head layout body, ρ, ρ', st, h => by
    simp only [Tree.actions] at h
    split at h
    · split at h
      · obtain ⟨i, -, h⟩ := List.mem_flatMap.mp h
        exact mem_stmtsAll_of_mem_actionsAll h
      · simp at h
    · simp at h
  | .choose b inside outside, ρ, ρ', st, h => by
    simp only [Tree.actions] at h
    split at h
    · split at h
      · simp only [List.mem_singleton, Action.perform.injEq] at h
        simp [Tree.stmts, h.2]
      · cases outside with
        | none => simp at h
        | some s =>
          simp only [Option.map_some, Option.toList_some, List.mem_singleton, Action.perform.injEq] at h
          simp [Tree.stmts, h.2]
    · simp at h
  | .simulated body, ρ, ρ', st, h => by
    rw [Tree.actions] at h
    rw [Tree.stmts]
    exact mem_stmtsAll_of_mem_actionsAll h
  | .watched s stored, ρ, ρ', st, h => by
    obtain ⟨st', hst', heq⟩ := List.mem_map.mp (show _ ∈ (s :: stored).map (Action.perform ρ) from h)
    cases heq
    exact hst'

theorem mem_stmtsAll_of_mem_actionsAll : ∀ {ts : List Tree} {ρ ρ' : Scope} {st : Stmt},
    .perform ρ' st ∈ actionsAll ts ρ → st ∈ stmtsAll ts
  | [], _, _, _, h => by simp at h
  | t :: ts, ρ, ρ', st, h => by
    rw [actionsAll_cons, List.mem_append] at h
    rw [stmtsAll, List.mem_append]
    exact h.imp mem_stmts_of_mem_actions mem_stmtsAll_of_mem_actionsAll

end

theorem exists_stmt_of_run {ts : List Tree} {a : Action} (ha : a ∈ actionsAll ts ρ) {σ σ' : Memory}
    (h : a.run μ σ = some σ') : ∃ ρ', ∃ st ∈ stmtsAll ts, st.run μ σ ρ' = some σ' := by
  cases a with
  | stuck => cases h
  | perform ρ' st => exact ⟨ρ', st, mem_stmtsAll_of_mem_actionsAll ha, h⟩

theorem mem_actions_loop {head : Head} {layout : Layout} {body : List Tree} {n i : Int} {k : Index}
    (hk : head.index = k) (hn : head.bound = some n) (hg : layout.governs body = true) (h0 : 0 ≤ i) (hi : i < n)
    {a : Action} (ha : a ∈ actionsAll body (ρ.set k (some i))) : a ∈ (Tree.loop head layout body).actions ρ := by
  subst hk
  lift i to Nat using h0
  rw [actions_loop hn hg]
  exact List.mem_flatMap.mpr ⟨i, List.mem_range.mpr (by omega), ha⟩

theorem length_subscripts? {es : List Expr} {js : List Int} (h : subscripts? ρ es = some js) :
    js.length = es.length := by
  induction es generalizing js with
  | nil =>
    cases h
    rfl
  | cons e es ih =>
    obtain ⟨j, -, h⟩ := Option.bind_eq_some_iff.mp h
    obtain ⟨js', hjs, h⟩ := Option.bind_eq_some_iff.mp h
    cases h
    rw [List.length_cons, List.length_cons, ih hjs]

namespace Memory

variable {e : Element} {v : ℚ} {ρ : Scope}

theorem locate_eq_some {σ : Memory} {js : List Int} (h : σ.locate ρ e = some js) :
    subscripts? ρ e.subscripts = some js ∧ ∃ dims, σ.extents e.buffer = some dims ∧ Within dims js := by
  obtain ⟨_, hjs, h⟩ := Option.bind_eq_some_iff.mp h
  obtain ⟨dims, hdims, h⟩ := Option.bind_eq_some_iff.mp h
  split at h
  · rename_i hw
    cases h
    exact ⟨hjs, dims, hdims, hw⟩
  · cases h

theorem cells_of_read {σ : Memory} (h : σ.read ρ e = some v) :
    ∃ js, subscripts? ρ e.subscripts = some js ∧ σ.cells e.buffer js = some v := by
  obtain ⟨js, hl, hv⟩ := Option.bind_eq_some_iff.mp h
  exact ⟨js, (locate_eq_some hl).1, hv⟩

theorem eq_put_of_write {σ σ' : Memory} (h : σ.write ρ e v = some σ') :
    ∃ js, subscripts? ρ e.subscripts = some js ∧ σ' = σ.put e.buffer js v := by
  obtain ⟨js, hl, hv⟩ := Option.bind_eq_some_iff.mp h
  exact ⟨js, (locate_eq_some hl).1, (Option.some.inj hv).symm⟩

theorem length_of_read {σ : Memory} (h : σ.read ρ e = some v) {dims : List Int} (hd : σ.extents e.buffer = some dims) :
    e.subscripts.length = dims.length := by
  obtain ⟨js, hl, -⟩ := Option.bind_eq_some_iff.mp h
  obtain ⟨hjs, dims', hdims, hw⟩ := locate_eq_some hl
  cases hd.symm.trans hdims
  rw [← length_subscripts? hjs]
  exact hw.length_eq

end Memory

theorem Stmt.extents_run {st : Stmt} {σ σ' : Memory} (h : st.run μ σ ρ = some σ') {b : Buffer}
    (hb : ∀ d ∈ st.declarations, d.1.buffer ≠ b) : σ'.extents b = σ.extents b := by
  cases st with
  | comment => cases h; rfl
  | declare d active =>
    rw [Stmt.run] at h
    split at h
    · obtain ⟨dims, -, rfl⟩ := Option.map_eq_some_iff.mp h
      exact Memory.extents_declare_of_ne σ (hb (d, active) List.mem_cons_self).symm dims
    · cases h
      rfl
  | declareCells t =>
    cases h
    rw [declarations, List.forall_mem_cons, List.forall_mem_singleton] at hb
    rw [Memory.extents_declare_of_ne _ hb.2.symm, Memory.extents_declare_of_ne _ hb.1.symm]
  | define | store =>
    obtain ⟨_, -, rfl⟩ := Option.map_eq_some_iff.mp h
    rfl
  | assign =>
    obtain ⟨_, -, h⟩ := Option.bind_eq_some_iff.mp h
    obtain ⟨_, -, rfl⟩ := Memory.eq_put_of_write h
    rfl
  | accumulate =>
    obtain ⟨_, -, h⟩ := Option.bind_eq_some_iff.mp h
    obtain ⟨_, -, h⟩ := Option.bind_eq_some_iff.mp h
    obtain ⟨_, -, rfl⟩ := Memory.eq_put_of_write h
    rfl
  | keepMaximum =>
    obtain ⟨_, -, h⟩ := Option.bind_eq_some_iff.mp h
    obtain ⟨_, -, h⟩ := Option.bind_eq_some_iff.mp h
    split at h
    · obtain ⟨_, -, rfl⟩ := Memory.eq_put_of_write h
      rfl
    · cases h
      rfl
  | requantize =>
    obtain ⟨_, -, h⟩ := Option.bind_eq_some_iff.mp h
    obtain ⟨_, -, h⟩ := Option.bind_eq_some_iff.mp h
    obtain ⟨_, -, h⟩ := Option.bind_eq_some_iff.mp h
    obtain ⟨_, -, h⟩ := Option.bind_eq_some_iff.mp h
    obtain ⟨_, -, h⟩ := Option.bind_eq_some_iff.mp h
    obtain ⟨_, -, rfl⟩ := Memory.eq_put_of_write h
    rfl
  | injectFault => cases h

end LayerLoops.Code
