import LayerLoops.Proofs.Execution
import Mathlib.Algebra.BigOperators.Group.Finset.Basic
import Mathlib.Data.Set.Lattice

/-! # Rules for runs

Actions ensure `Q` from `P` if they can be run from every memory with `P` and end in one with `Q`. A loop
carries an invariant that knows how many iterations have passed. Two kinds of invariants are common: the
iterations add something to what is known, so that a loop adds the sum over its iterations, or they mark
places, so that a loop marks the places of all its iterations. -/

namespace LayerLoops.Code

variable {M : Type} {body : List Tree} {h : Head} {k : Index} {layout : Layout} {n : Int} (ρ : Scope)
  {μ : Multipliers}

theorem runAll_append (as bs : List Action) (σ : Memory) :
    runAll μ (as ++ bs) σ = (runAll μ as σ).bind (runAll μ bs) := by
  induction as generalizing σ with
  | nil => rfl
  | cons a as ih =>
    simp only [List.cons_append, runAll]
    cases a.run μ σ with
    | none => rfl
    | some σ' => exact ih σ'

/-! ## Actions of trees -/

def scopeAll (ρ : Scope) (ts : List Tree) : Scope := ts.foldl Tree.scope ρ

@[simp] theorem actionsAll_nil : actionsAll [] ρ = [] := rfl

theorem actionsAll_cons (t : Tree) (ts : List Tree) (ρ : Scope) :
    actionsAll (t :: ts) ρ = t.actions ρ ++ actionsAll ts (t.scope ρ) := rfl

theorem actionsAll_append (ts us : List Tree) (ρ : Scope) :
    actionsAll (ts ++ us) ρ = actionsAll ts ρ ++ actionsAll us (scopeAll ρ ts) := by
  induction ts generalizing ρ with
  | nil => rfl
  | cons t ts ih => simp only [List.cons_append, actionsAll_cons, ih, List.append_assoc, scopeAll, List.foldl_cons]

@[simp] theorem actionsAll_singleton (t : Tree) (ρ : Scope) : actionsAll [t] ρ = t.actions ρ :=
  List.append_nil _

@[simp] theorem actions_stmt (s : Stmt) (ρ : Scope) : (Tree.stmt s).actions ρ = [.perform ρ s] := rfl

@[simp] theorem actions_blank : Tree.blank.actions ρ = [] := rfl

@[simp] theorem scope_blank : Tree.blank.scope ρ = ρ := rfl

@[simp] theorem scope_loop (h : Head) (layout : Layout) (body : List Tree) (ρ : Scope) :
    (Tree.loop h layout body).scope ρ = ρ := rfl

theorem actionsAll_ofStmts {ss : List Stmt} (h : ∀ s ∈ ss, ∀ i e, s ≠ .define i e) (ρ : Scope) :
    actionsAll (Tree.ofStmts ss) ρ = ss.map (.perform ρ) := by
  induction ss with
  | nil => rfl
  | cons s ss ih =>
    have hscope : (Tree.stmt s).scope ρ = ρ := by
      cases s with
      | define i e => exact absurd rfl (h _ List.mem_cons_self i e)
      | _ => rfl
    change [Action.perform ρ s] ++ actionsAll (Tree.ofStmts ss) ((Tree.stmt s).scope ρ) = _
    rw [hscope, ih fun t ht => h t (List.mem_cons_of_mem s ht)]
    rfl

theorem actions_loop (hn : h.bound = some n) (hg : layout.governs body = true) (ρ : Scope) :
    (Tree.loop h layout body).actions ρ =
      (List.range n.toNat).flatMap fun (i : Nat) => actionsAll body (ρ.set h.index (some i)) := by
  simp only [Tree.actions, hn, hg, if_true]

theorem actions_choose {ρ : Scope} {r c : Int} (hr : ρ .row = some r) (hc : ρ .column = some c) (b : Bounds)
    (inside : Stmt) (outside : Option Stmt) :
    (Tree.choose b inside outside).actions ρ =
      if 0 ≤ r ∧ r < b.rows ∧ 0 ≤ c ∧ c < b.columns then [.perform ρ inside]
      else (outside.map (Action.perform ρ)).toList := by
  simp only [Tree.actions, hr, hc]

/-! ## Total correctness -/

/-- From every memory with `P` the actions run to one with `Q`. -/
def Ensures (μ : Multipliers) (as : List Action) (P Q : Memory → Prop) : Prop :=
  ∀ σ, P σ → ∃ σ', runAll μ as σ = some σ' ∧ Q σ'

namespace Ensures

variable {P Q R : Memory → Prop} {as bs : List Action}

theorem nil (h : ∀ σ, P σ → Q σ) : Ensures μ [] P Q := fun σ hσ => ⟨σ, rfl, h σ hσ⟩

theorem append (ha : Ensures μ as P Q) (hb : Ensures μ bs Q R) : Ensures μ (as ++ bs) P R := by
  intro σ hσ
  obtain ⟨σ₁, h₁, hQ⟩ := ha σ hσ
  obtain ⟨σ₂, h₂, hR⟩ := hb σ₁ hQ
  exact ⟨σ₂, by rw [runAll_append, h₁]; exact h₂, hR⟩

theorem mono {P' Q' : Memory → Prop} (h : Ensures μ as P Q) (hP : ∀ σ, P' σ → P σ) (hQ : ∀ σ, Q σ → Q' σ) :
    Ensures μ as P' Q' := by
  intro σ hσ
  obtain ⟨σ', hr, hq⟩ := h σ (hP σ hσ)
  exact ⟨σ', hr, hQ σ' hq⟩

theorem perform {ρ : Scope} {s : Stmt} (h : ∀ σ, P σ → ∃ σ', s.run μ σ ρ = some σ' ∧ Q σ') :
    Ensures μ [.perform ρ s] P Q := by
  intro σ hσ
  obtain ⟨σ', hr, hq⟩ := h σ hσ
  exact ⟨σ', by simp only [runAll, Action.run, hr]; rfl, hq⟩

theorem range {n : Nat} {f : Nat → List Action} {I : Nat → Memory → Prop}
    (h : ∀ i < n, Ensures μ (f i) (I i) (I (i + 1))) :
    Ensures μ ((List.range n).flatMap f) (I 0) (I n) := by
  induction n with
  | zero => exact nil fun _ => id
  | succ n ih =>
    rw [List.range_succ, List.flatMap_append, List.flatMap_singleton]
    exact (ih fun i hi => h i (Nat.lt_succ_of_lt hi)).append (h n n.lt_succ_self)

theorem loop {h : Head} {layout : Layout} {body : List Tree} {n : Int} (hn : h.bound = some n)
    (hg : layout.governs body = true) {ρ : Scope} {I : Nat → Memory → Prop}
    (hi : ∀ i : Nat, (i : Int) < n → Ensures μ (actionsAll body (ρ.set h.index (some i))) (I i) (I (i + 1))) :
    Ensures μ ((Tree.loop h layout body).actions ρ) (I 0) (I n.toNat) := by
  rw [actions_loop hn hg]
  refine range (I := I) ?_
  intro i hlt
  exact hi i (by omega)

end Ensures

/-! ## Adding and marking -/

/-- Whatever `F` knows to be there, the actions add `δ` to it. -/
def Adds {M : Type} [Add M] (μ : Multipliers) (as : List Action) (F : M → Memory → Prop) (δ : M) : Prop :=
  ∀ c, Ensures μ as (F c) (F (c + δ))

theorem Adds.loop [AddCommMonoid M] {F : M → Memory → Prop} (hk : h.index = k) (hn : h.bound = some n)
    (hg : layout.governs body = true) {ρ : Scope} {δ : Nat → M}
    (hi : ∀ i : Nat, (i : Int) < n → Adds μ (actionsAll body (ρ.set k (some i))) F (δ i)) :
    Adds μ ((Tree.loop h layout body).actions ρ) F (∑ i ∈ Finset.range n.toNat, δ i) := by
  subst hk
  intro c
  -- The first `k` iterations have added the first `k` terms.
  have hrun := Ensures.loop (I := fun k => F (c + ∑ i ∈ Finset.range k, δ i)) hn hg fun i hlt => by
    have hstep := hi i hlt (c + ∑ j ∈ Finset.range i, δ j)
    rwa [add_assoc, ← Finset.sum_range_succ] at hstep
  rwa [Finset.sum_range_zero, add_zero] at hrun

theorem Adds.nil [AddZeroClass M] {F : M → Memory → Prop} : Adds μ [] F 0 := by
  intro c
  rw [add_zero]
  exact Ensures.nil fun _ => id

theorem Adds.define [Add M] {F : M → Memory → Prop} {ρ : Scope} {i : Index} {e : Expr} {r : Int} {ts : List Tree}
    {δ : M} (he : e.value? ρ = some r) (h : Adds μ (actionsAll ts (ρ.set i (some r))) F δ) :
    Adds μ (actionsAll (.stmt (.define i e) :: ts) ρ) F δ := by
  intro c
  have hdef : Ensures μ [.perform ρ (.define i e)] (F c) (F c) :=
    Ensures.perform fun σ hσ => ⟨σ, by simp [Stmt.run, he], hσ⟩
  rw [actionsAll_cons, Tree.scope, he]
  exact hdef.append (h c)

/-- Whatever `F` knows to be marked, the actions mark `S` in addition. -/
def Marks {β : Type} (μ : Multipliers) (as : List Action) (F : Set β → Memory → Prop) (S : Set β) : Prop :=
  ∀ T, Ensures μ as (F T) (F (T ∪ S))

theorem Marks.loop {β : Type} {F : Set β → Memory → Prop} (hk : h.index = k) (hn : h.bound = some n)
    (hg : layout.governs body = true) {ρ : Scope} {S : Int → Set β}
    (hi : ∀ i : Int, 0 ≤ i → i < n → Marks μ (actionsAll body (ρ.set k (some i))) F (S i)) :
    Marks μ ((Tree.loop h layout body).actions ρ) F {b | ∃ i, 0 ≤ i ∧ i < n ∧ b ∈ S i} := by
  subst hk
  intro T
  -- The places of the first `k` iterations.
  let marked (k : Nat) : Set β := {b | ∃ i : Int, 0 ≤ i ∧ i < k ∧ b ∈ S i}
  have hrun := Ensures.loop (I := fun k => F (T ∪ marked k)) hn hg fun i hlt => by
    have hstep := hi i (Int.natCast_nonneg i) hlt (T ∪ marked i)
    have hnext : T ∪ marked i ∪ S i = T ∪ marked (i + 1) := by
      ext b
      simp only [marked, Set.mem_union, Set.mem_ofPred_eq]
      grind
    rwa [hnext] at hstep
  have hnone : T ∪ marked 0 = T := by
    ext b
    simp only [marked, Set.mem_union, Set.mem_ofPred_eq]
    grind
  have hall : marked n.toNat = {b | ∃ i, 0 ≤ i ∧ i < n ∧ b ∈ S i} := by
    ext b
    simp only [marked, Set.mem_ofPred_eq]
    grind
  rwa [hnone, hall] at hrun

theorem Marks.braced {β : Type} {F : Set β → Memory → Prop} (hk : h.index = k) (hn : h.bound = some n) {ρ : Scope}
    {S : Int → Set β} (hi : ∀ i : Int, 0 ≤ i → i < n → Marks μ (actionsAll body (ρ.set k (some i))) F (S i)) :
    Marks μ (actionsAll [.loop h .braced body] ρ) F {b | ∃ i, 0 ≤ i ∧ i < n ∧ b ∈ S i} := by
  rw [actionsAll_singleton]
  exact Marks.loop hk hn rfl hi

end LayerLoops.Code
