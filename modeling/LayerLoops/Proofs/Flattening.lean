import LayerLoops.Proofs.MaximumPooling
import LayerLoops.Proofs.RepeatedInference
import Mathlib.Data.Int.ConditionallyCompleteOrder
import Mathlib.Data.List.ProdSigma

/-! # Flattened volumes

The loops of a flattening layer sweep over the positions of its input, rows first, then columns, then channels, and
copy each element to its offset in the vector. The offsets of a volume with positive extents count up from zero to
its size without a gap, so that the vector is written from end to end, each element once. -/

namespace LayerLoops

variable {l m : Layer} {n : Int} {number : Nat}

/-! ## Offsets in row-major order -/

/-- The numbers from zero up to `n`. -/
def upTo (n : Int) : List Int := (List.range n.toNat).map Int.ofNat

theorem mem_upTo {i : Int} : i ∈ upTo n ↔ 0 ≤ i ∧ i < n := by
  simp only [upTo, List.mem_map, List.mem_range]
  constructor
  · rintro ⟨k, hk, rfl⟩
    exact ⟨Int.natCast_nonneg k, Int.lt_toNat.mp hk⟩
  · rintro ⟨h0, hn⟩
    exact ⟨i.toNat, by omega, Int.toNat_of_nonneg h0⟩

theorem upTo_add {m : Int} (hm : 0 ≤ m) (hn : 0 ≤ n) : upTo (m + n) = upTo m ++ (upTo n).map (m + ·) := by
  obtain ⟨m, rfl⟩ := Int.eq_ofNat_of_zero_le hm
  obtain ⟨n, rfl⟩ := Int.eq_ofNat_of_zero_le hn
  simp [upTo, Int.toNat_add, List.range_add, Function.comp_def]

/-- Pairs of digits, of which the second is below `n`, count up from zero without a gap. -/
theorem map_product_upTo {m : Int} (hm : 0 ≤ m) (hn : 0 ≤ n) :
    (upTo m ×ˢ upTo n).map (fun p => p.1 * n + p.2) = upTo (m * n) := by
  obtain ⟨m, rfl⟩ := Int.eq_ofNat_of_zero_le hm
  induction m with
  | zero => simp [upTo]
  | succ m ih =>
    have hm := Int.natCast_nonneg m
    have hfirst : upTo ((m + 1 : Nat) : Int) = upTo m ++ [(m : Int)] := upTo_add hm Int.one_nonneg
    -- The pairs that start with `m` have the `n` places behind `m * n`.
    have hplaces : upTo (((m + 1 : Nat) : Int) * n) = upTo (m * n) ++ (upTo n).map (m * n + ·) := by
      rw [← upTo_add (Int.mul_nonneg hm hn) hn, Int.natCast_succ, add_mul, one_mul]
    rw [hplaces, ← ih hm, hfirst]
    simp [SProd.sprod, List.product]

theorem digits_lt_iff {a b a' b' : Int} (hb : 0 ≤ b ∧ b < n) (hb' : 0 ≤ b' ∧ b' < n) :
    a * n + b < a' * n + b' ↔ a < a' ∨ a = a' ∧ b < b' := by
  rcases lt_trichotomy a a' with hlt | rfl | hgt
  · have hstep : (a + 1) * n ≤ a' * n := Int.mul_le_mul_of_nonneg_right hlt (by omega)
    rw [add_mul, one_mul] at hstep
    simp only [hlt, true_or, iff_true]
    omega
  · simp
  · have hstep : (a' + 1) * n ≤ a * n := Int.mul_le_mul_of_nonneg_right hgt (by omega)
    rw [add_mul, one_mul] at hstep
    omega

namespace Volume

/-- The positions of a volume: row, column and channel, each from zero up to its extent. -/
def positions (v : Volume) : Set (Int × Int × Int) := Set.Ico 0 v.x ×ˢ Set.Ico 0 v.y ×ˢ Set.Ico 0 v.z

/-- The positions of a volume, the last coordinate running fastest. -/
def sweep (v : Volume) : List (Int × Int × Int) := upTo v.x ×ˢ (upTo v.y ×ˢ upTo v.z)

/-- The place of a position in the flattened volume. -/
def offset (v : Volume) (p : Int × Int × Int) : Int := p.1 * v.y * v.z + p.2.1 * v.z + p.2.2

variable {v : Volume} {p q : Int × Int × Int}

theorem mem_sweep : p ∈ v.sweep ↔ p ∈ v.positions := by
  obtain ⟨x, y, z⟩ := p
  simp only [sweep, positions, List.mem_product, mem_upTo, Set.mem_prod, Set.mem_Ico]

theorem offset_eq (v : Volume) (p : Int × Int × Int) :
    v.offset p = p.1 * (v.y * v.z) + (p.2.1 * v.z + p.2.2) := by
  unfold offset
  ring

theorem positive_of_mem_positions (hp : p ∈ v.positions) : v.Positive := by
  obtain ⟨⟨hx0, hx⟩, ⟨hy0, hy⟩, ⟨hz0, hz⟩⟩ := hp
  exact ⟨by omega, by omega, by omega⟩

theorem within_of_mem_positions (hp : p ∈ v.positions) : Code.Within v.dims [p.1, p.2.1, p.2.2] :=
  .cons hp.1 (.cons hp.2.1 (.cons hp.2.2 .nil))

theorem row_bounds (hp : p ∈ v.positions) : 0 ≤ p.2.1 * v.z + p.2.2 ∧ p.2.1 * v.z + p.2.2 < v.y * v.z := by
  obtain ⟨-, ⟨hy0, hy⟩, ⟨hz0, hz⟩⟩ := hp
  have hstart : 0 ≤ p.2.1 * v.z := Int.mul_nonneg hy0 (by omega)
  have hend : (p.2.1 + 1) * v.z ≤ v.y * v.z := Int.mul_le_mul_of_nonneg_right hy (by omega)
  rw [add_mul, one_mul] at hend
  exact ⟨by omega, by omega⟩

theorem offset_lt_iff (hp : p ∈ v.positions) (hq : q ∈ v.positions) :
    v.offset p < v.offset q ↔ Prod.Lex (· < ·) (Prod.Lex (· < ·) (· < ·)) p q := by
  rw [offset_eq, offset_eq, digits_lt_iff (row_bounds hp) (row_bounds hq), digits_lt_iff hp.2.2 hq.2.2]
  simp only [Prod.lex_def]

theorem offset_injOn (v : Volume) : Set.InjOn v.offset v.positions := by
  intro p hp q hq heq
  have hpq := mt (offset_lt_iff hp hq).mpr heq.not_lt
  have hqp := mt (offset_lt_iff hq hp).mpr heq.not_gt
  simp only [Prod.lex_def] at hpq hqp
  ext <;> omega

theorem map_offset_sweep (hv : v.Positive) : v.sweep.map v.offset = upTo v.size := by
  have hrow : (upTo v.y ×ˢ upTo v.z).map (fun p => p.1 * v.z + p.2) = upTo (v.y * v.z) :=
    map_product_upTo hv.2.1.le hv.2.2.le
  have hsplit : v.sweep.map v.offset = (upTo v.x ×ˢ ((upTo v.y ×ˢ upTo v.z).map fun p => p.1 * v.z + p.2)).map
      fun p => p.1 * (v.y * v.z) + p.2 := by
    simp [sweep, SProd.sprod, List.product, List.map_flatMap, offset_eq, Function.comp_def]
  rw [hsplit, hrow, map_product_upTo hv.1.le (Int.mul_nonneg hv.2.1.le hv.2.2.le), size, mul_assoc]

theorem offset_bijOn (hv : v.Positive) : Set.BijOn v.offset v.positions (Set.Ico 0 v.size) := by
  have hmap := map_offset_sweep hv
  refine ⟨fun p hp => ?_, v.offset_injOn, fun k hk => ?_⟩
  · have hmem : v.offset p ∈ v.sweep.map v.offset := List.mem_map_of_mem (mem_sweep.mpr hp)
    rw [hmap] at hmem
    exact mem_upTo.mp hmem
  · have hmem : k ∈ v.sweep.map v.offset := by
      rw [hmap]
      exact mem_upTo.mpr hk
    obtain ⟨p, hp, rfl⟩ := List.mem_map.mp hmem
    exact ⟨p, mem_sweep.mp hp, rfl⟩

end Volume

namespace Code

variable {β : Type}

/-! ## Places that are written -/

/-- The element that a statement stores a number in. -/
def Stmt.target? : Stmt → Option Element
  | assign target _ | accumulate target _ | requantize target .. => some target
  | keepMaximum => some ⟨.maximum, []⟩
  | comment _ | declare .. | declareCells _ | define .. | store .. | injectFault _ => none

/-- The place that an action stores a number in. -/
def Action.written? : Action → Option (Buffer × List Int)
  | perform ρ s => s.target?.bind fun e => (subscripts? ρ e.subscripts).map (e.buffer, ·)
  | stuck => none

theorem Marks.flatMap {α : Type} {μ : Multipliers} {F : Set β → Memory → Prop} {as : List α} {f : α → List Action}
    {S : α → Set β} (h : ∀ a ∈ as, Marks μ (f a) F (S a)) : Marks μ (as.flatMap f) F {b | ∃ a ∈ as, b ∈ S a} := by
  induction as with
  | nil =>
    intro T
    have hnone : T ∪ {b | ∃ a ∈ [], b ∈ S a} = T := by simp
    rw [hnone]
    exact Ensures.nil fun _ => id
  | cons a as ih =>
    intro T
    have hunion : T ∪ {b | ∃ a' ∈ a :: as, b ∈ S a'} = T ∪ S a ∪ {b | ∃ a' ∈ as, b ∈ S a'} := by
      ext b
      simp [or_assoc]
    rw [hunion, List.flatMap_cons]
    exact (h a List.mem_cons_self T).append (ih (fun a' ha => h a' (List.mem_cons_of_mem a ha)) _)

def Scope.atPosition (ρ : Scope) (p : Int × Int × Int) : Scope :=
  ((ρ.set .inputX (some p.1)).set .inputY (some p.2.1)).set .inputZ (some p.2.2)

theorem flatMap_upTo (n : Int) (f : Int → List β) :
    (upTo n).flatMap f = (List.range n.toNat).flatMap fun (i : Nat) => f i := by
  rw [upTo, List.flatMap_map]
  rfl

theorem flatMap_sweep (v : Volume) (f : Int × Int × Int → List β) : v.sweep.flatMap f =
      (upTo v.x).flatMap fun x => (upTo v.y).flatMap fun y => (upTo v.z).flatMap fun z => f (x, y, z) := by
  simp [Volume.sweep, SProd.sprod, List.product, List.flatMap_assoc, List.flatMap_map]

end Code

open Code

namespace Site

/-! ## Copies of elements -/

variable {μ : Multipliers} {s : Site} {v : Volume} {σ₀ σ : Memory} {ρ : Scope} {p : Int × Int × Int}
  {T : Set (Int × Int × Int)}

theorem actions_innermost {h : Head} {n : Int} (hn : h.bound = some n) {body : Stmt} (hb : body.isSimple = true)
    (stored : List Stmt) (ρ : Scope) :
    (innermost h body stored).actions ρ =
      (upTo n).flatMap fun i => (body :: stored).map (.perform (ρ.set h.index (some i))) := by
  rw [flatMap_upTo]
  cases stored with
  | nil =>
    have hg : Layout.governs .deeper [.stmt body] = true := hb
    rw [innermost, List.isEmpty_nil, if_pos rfl, actions_loop hn hg]
    rfl
  | cons st stored =>
    rw [innermost, List.isEmpty_cons, if_neg Bool.false_ne_true, actions_loop hn rfl]
    simp only [actionsAll_singleton]
    rfl

theorem actionsAll_nest_upTo {h : Head} {hs : List Head} {t : Tree} {k : Index} {n : Int} (hk : h.index = k)
    (hn : h.bound = some n) (ht : t.isSingle = true) (ρ : Scope) :
    actionsAll (nest (h :: hs) [t]) ρ = (upTo n).flatMap fun i => actionsAll (nest hs [t]) (ρ.set k (some i)) := by
  rw [actionsAll_nest, actions_loop hn (governs_nest ht hs), flatMap_upTo, hk]

/-- What is done at a position: the copy, and what is stored of it. -/
def copyStmts (s : Site) (v : Volume) : List Stmt :=
  .assign ⟨s.output, [flatPosition v]⟩ (.element ⟨s.input, [.index .inputX, .index .inputY, .index .inputZ]⟩) ::
    if s.config.capture then
      [.store s.number "LayerOutput" ⟨s.output, [flatPosition v]⟩ (flatPosition v) nowhere nowhere] else []

theorem actionsAll_flattenNest (hk : s.layer.kind = .flatten) (v o : Volume) (ρ : Scope) :
    actionsAll (s.flattenNest ⟨v, o⟩) ρ =
      v.sweep.flatMap fun p => (s.copyStmts v).map (.perform (ρ.atPosition p)) := by
  have hindex (a : Axis) : (s.loop ⟨v, o⟩ a).index = a.index .flatten := by rw [Site.loop, hk]
  have hx : (s.loop ⟨v, o⟩ .ox).bound = some v.x := by simp [Site.loop, Site.bound, hk]
  have hy : (s.loop ⟨v, o⟩ .oy).bound = some v.y := by simp [Site.loop, Site.bound, hk]
  have hz : (s.loop ⟨v, o⟩ .oz).bound = some v.z := by simp [Site.loop, Site.bound, hk]
  have hsingle := isSingle_innermost (s.loop ⟨v, o⟩ .oz)
  simp only [flattenNest, flatMap_sweep, actionsAll_nest_upTo (hindex .ox) hx (hsingle _ _),
    actionsAll_nest_upTo (hindex .oy) hy (hsingle _ _), nest_nil, actionsAll_singleton]
  simp only [actions_innermost hz (rfl : Stmt.isSimple (.assign _ _) = true), hindex]
  rfl

theorem value?_flatPosition (v : Volume) (ρ : Scope) (p : Int × Int × Int) :
    (flatPosition v).value? (ρ.atPosition p) = some (v.offset p) := by
  simp [flatPosition, Expr.value?, Expr.isProduct, Expr.isAtom, Scope.atPosition, Scope.set_apply, Volume.offset]

theorem written_copyStmts (s : Site) (v : Volume) (ρ : Scope) (p : Int × Int × Int) :
    ((s.copyStmts v).map (Action.perform (ρ.atPosition p))).filterMap Action.written? = [(s.output, [v.offset p])] := by
  have hplace : subscripts? (ρ.atPosition p) [flatPosition v] = some [v.offset p] := by
    simp [subscripts?, value?_flatPosition]
  cases hc : s.config.capture <;> simp [copyStmts, hc, Action.written?, Stmt.target?, hplace]

theorem written_flattenNest (hk : s.layer.kind = .flatten) (v o : Volume) (ρ : Scope) :
    (actionsAll (s.flattenNest ⟨v, o⟩) ρ).filterMap Action.written? =
      v.sweep.map fun p => (s.output, [v.offset p]) := by
  rw [actionsAll_flattenNest hk, List.filterMap_flatMap, List.map_eq_flatMap]
  simp only [written_copyStmts]

/-- While the loops run on `σ₀`, the input stays as it is, and the elements at the positions in `T` are copied. -/
structure Flattened (s : Site) (v : Volume) (σ₀ : Memory) (T : Set (Int × Int × Int)) (σ : Memory) : Prop where
  input : σ.extents s.input = σ₀.extents s.input ∧ σ.cells s.input = σ₀.cells s.input
  output : σ.extents s.output = some [v.size]
  copied : ∀ p ∈ T, p ∈ v.positions ∧ σ.cells s.output [v.offset p] = σ₀.cells s.input [p.1, p.2.1, p.2.2]

theorem Flattened.put (h : s.Flattened v σ₀ T σ) (hpos : 0 < s.number) (hp : p ∈ v.positions) {q : ℚ}
    (hq : σ₀.cells s.input [p.1, p.2.1, p.2.2] = some q) :
    s.Flattened v σ₀ (T ∪ {p}) (σ.put s.output [v.offset p] q) := by
  refine ⟨⟨h.input.1, ?_⟩, h.output, fun p' hT => ?_⟩
  · rw [Memory.cells_put_of_ne σ (input_ne_output hpos)]
    exact h.input.2
  · rcases hT with hT | rfl
    · obtain ⟨hp', hcopied⟩ := h.copied p' hT
      refine ⟨hp', ?_⟩
      rw [Memory.cells_put_self]
      split
      · rename_i heq
        cases v.offset_injOn hp' hp (List.singleton_inj.mp heq)
        exact hq.symm
      · exact hcopied
    · exact ⟨hp, by rw [Memory.cells_put_self, if_pos rfl, hq]⟩

theorem copyStmts_marks (hpos : 0 < s.number) (hin : σ₀.Provides s.input v.dims) (hp : p ∈ v.positions) (ρ : Scope) :
    Marks μ ((s.copyStmts v).map (.perform (ρ.atPosition p))) (s.Flattened v σ₀) {p} := by
  intro T σ hσ
  obtain ⟨⟨hx0, hx⟩, ⟨hy0, hy⟩, ⟨hz0, hz⟩⟩ := hp
  have hX : (ρ.atPosition p).Holds .inputX p.1 v.x :=
    ((ρ.holds_set .inputX hx0 hx).set_of_ne (by decide) _).set_of_ne (by decide) _
  have hY : (ρ.atPosition p).Holds .inputY p.2.1 v.y := (Scope.holds_set _ .inputY hy0 hy).set_of_ne (by decide) _
  have hZ : (ρ.atPosition p).Holds .inputZ p.2.2 v.z := Scope.holds_set _ .inputZ hz0 hz
  have hsource : Located (ρ.atPosition p) [.index .inputX, .index .inputY, .index .inputZ] v.dims
      [p.1, p.2.1, p.2.2] := .index hX (.index hY (.index hZ (.nil _)))
  have htarget : Located (ρ.atPosition p) [flatPosition v] [v.size] [v.offset p] := located_flatPosition hX hY hZ
  obtain ⟨q, hq⟩ := Option.isSome_iff_exists.mp (hin.2 _ hsource.2)
  have hread : σ.read (ρ.atPosition p) ⟨s.input, [.index .inputX, .index .inputY, .index .inputZ]⟩ = some q :=
    Memory.read_eq hsource (hσ.input.1.trans hin.1) (by rw [hσ.input.2, hq])
  have hcopy : (Stmt.assign ⟨s.output, [flatPosition v]⟩
      (.element ⟨s.input, [.index .inputX, .index .inputY, .index .inputZ]⟩)).run μ σ (ρ.atPosition p) =
        some (σ.put s.output [v.offset p] q) := by
    simp only [Stmt.run, Term.value?, hread, Option.bind_eq_bind, Option.bind_some]
    exact Memory.write_eq q htarget hσ.output
  have hstore : (Stmt.store s.number "LayerOutput" ⟨s.output, [flatPosition v]⟩ (flatPosition v) nowhere nowhere).run μ
      (σ.put s.output [v.offset p] q) (ρ.atPosition p) = some (σ.put s.output [v.offset p] q) := by
    have hafter : (σ.put s.output [v.offset p] q).read (ρ.atPosition p) ⟨s.output, [flatPosition v]⟩ = some q :=
      Memory.read_eq htarget hσ.output (by rw [Memory.cells_put_self, if_pos rfl])
    rw [Stmt.run, hafter, Option.map_some]
  refine ⟨_, ?_, hσ.put hpos ⟨⟨hx0, hx⟩, ⟨hy0, hy⟩, ⟨hz0, hz⟩⟩ hq⟩
  cases hc : s.config.capture <;> simp [copyStmts, hc, runAll, Action.run, hcopy, hstore]

theorem flattenNest_marks (hk : s.layer.kind = .flatten) (hpos : 0 < s.number) (hin : σ₀.Provides s.input v.dims)
    (o : Volume) (ρ : Scope) :
    Marks μ (actionsAll (s.flattenNest ⟨v, o⟩) ρ) (s.Flattened v σ₀) v.positions := by
  have hsweep : v.positions = {p | ∃ q ∈ v.sweep, p ∈ ({q} : Set (Int × Int × Int))} := by
    ext p
    simp [Volume.mem_sweep]
  rw [actionsAll_flattenNest hk, hsweep]
  exact Marks.flatMap fun p hp => copyStmts_marks hpos hin (Volume.mem_sweep.mp hp) ρ

theorem flattenNest_stores (hk : s.layer.kind = .flatten) (hpos : 0 < s.number) (hin : σ.Provides s.input v.dims)
    (hsized : s.Sized [v.size] σ) (shape : Shape) (o : Volume) (ρ : Scope) :
    ∃ σ', runAll μ (actionsAll (s.header shape ++ s.declarations [v.size] ++ s.flattenNest ⟨v, o⟩) ρ) σ = some σ' ∧
      ∀ p ∈ v.positions, σ'.cells s.output [v.offset p] = σ.cells s.input [p.1, p.2.1, p.2.2] := by
  have hopened : s.Flattened v σ ∅ (s.opened [v.size] σ) :=
    ⟨opened_frame (not_writes_input hpos), opened_extents hsized, fun _ h => h.elim⟩
  rw [actionsAll_append, runAll_append, runAll_prelude, Option.bind_some]
  obtain ⟨σ', hrun, hσ'⟩ := flattenNest_marks hk hpos hin o _ ∅ _ hopened
  exact ⟨σ', hrun, fun p hp => (hσ'.copied p (.inr hp)).2⟩

theorem written_prelude (s : Site) (shape : Shape) (dims : List Int) (ρ : Scope) :
    (actionsAll (s.header shape ++ s.declarations dims) ρ).filterMap Action.written? = [] := by
  rw [List.filterMap_eq_nil_iff]
  intro a ha
  cases a with
  | stuck => rfl
  | perform ρ' st => rcases prelude_stmts (mem_stmtsAll_of_mem_actionsAll ha) with ⟨text, rfl⟩ | ⟨d, active, rfl⟩ <;> rfl

end Site

/-! ## Inferred vectors -/

theorem exists_infer_of_mem {ls : List Layer} {predecessor : Option Layer}
    (h : (inferFrom number predecessor ls).2.outcome = .ok true) (hm : m ∈ (inferFrom number predecessor ls).1) :
    ∃ l n p, m = (Layer.infer n p l).1 ∧ (Layer.infer n p l).2.outcome = .ok () := by
  induction ls generalizing number predecessor with
  | nil => cases hm
  | cons l ls ih =>
    unfold inferFrom at h hm
    dsimp only at h hm
    split at h
    · rename_i hok
      simp only [hok] at hm
      rcases List.mem_cons.mp hm with rfl | hm
      · exact ⟨l, number, predecessor, rfl, hok⟩
      · exact ih h hm
    · cases h
    · cases h

theorem Layer.conclude_of_ok {input : Volume} (h : (l.conclude number input).2.outcome = .ok ()) :
    ∃ v, (l.computeOutput number input).outcome = .ok v ∧ v.Positive ∧
      (l.conclude number input).1 = { l with output := some v } := by
  unfold conclude at h ⊢
  dsimp only at h ⊢
  split at h
  · cases h
  · rename_i v hv
    split at h
    · rename_i hpos
      simp only [hv, if_pos hpos]
      exact ⟨v, rfl, hpos, rfl⟩
    · cases h

theorem Layer.infer_flatten {predecessor : Option Layer} (h : (l.infer number predecessor).2.outcome = .ok ())
    (hk : (l.infer number predecessor).1.kind = .flatten) :
    ∃ v, (l.infer number predecessor).1.input = some v ∧
      (l.infer number predecessor).1.output = some (.flat v.size) ∧ 0 < v.size := by
  cases hsource : (l.settle.input <|> predecessor.bind Layer.output) with
  | none =>
    rw [infer_of_no_source hsource] at h
    cases h
  | some v =>
    rw [infer_of_source hsource] at h hk ⊢
    obtain ⟨o, ho, hpos, hdone⟩ := conclude_of_ok h
    rw [hdone] at hk ⊢
    have hflat : o = .flat v.size := by
      obtain ⟨form, input, output, stride, activation, location⟩ := l
      cases form with
      | flatten nodes => exact (Except.ok.inj ho).symm
      | conv _ _ _ | pooling _ _ _ | dense _ => cases hk
    subst hflat
    exact ⟨v, rfl, rfl, hpos.1⟩

theorem Layer.writable_flatten_iff (hk : l.kind = .flatten) {i o : Volume} (hi : l.input = some i)
    (ho : l.output = some o) : l.Writable ↔ i.Fits ∧ o.Fits := by
  refine ⟨fun h => ⟨h.input i hi, h.output o ho⟩, fun ⟨hin, hout⟩ => ?_⟩
  have hkernel : l.form.kernel = {} := by
    unfold Layer.kind at hk
    cases hf : l.form with
    | flatten nodes => rfl
    | conv _ _ _ | pooling _ _ _ | dense _ => simp [hf, Form.kind] at hk
  constructor
  · rintro v hv
    cases hi.symm.trans hv
    exact hin
  · rintro v hv
    cases ho.symm.trans hv
    exact hout
  · simp [hk]
  · simp [hkernel]
  · simp [hkernel]

theorem Network.flatten_of_inferred {net : Network} (hnet : net.infer.2.outcome = .ok true)
    (hm : m ∈ net.infer.1.layers) (hk : m.kind = .flatten) :
    ∃ v, m.input = some v ∧ m.output = some (.flat v.size) ∧ 0 < v.size := by
  obtain ⟨l, n, p, rfl, hok⟩ := exists_infer_of_mem hnet hm
  exact Layer.infer_flatten hok hk

theorem Network.input_positive {ss : List Source.Statement} {net : Network}
    (hdecl : (Network.ofStatements ss).outcome = .ok net) (hnet : net.infer.2.outcome = .ok true)
    (hm : m ∈ net.infer.1.layers) {v : Volume} (hv : m.input = some v) : v.Positive := by
  obtain ⟨_, hdecl', hlayers⟩ := Network.ofStatements_declared (P := (0 < ·)) Int.one_pos fun st _ => st.allows_pos
  cases hdecl.symm.trans hdecl'
  obtain ⟨g, hg⟩ := (Network.infer_completion Int.one_pos (fun _ => id) hlayers hnet).complete m hm
  cases hv.symm.trans hg.input
  exact g.input_pos

theorem Volume.bijOn_iff_positive {v : Volume} (hsize : 0 < v.size) :
    Set.BijOn v.offset v.positions (Set.Ico 0 v.size) ↔ v.Positive := by
  refine ⟨fun h => ?_, offset_bijOn⟩
  obtain ⟨p, hp, -⟩ := h.surjOn (show 0 ∈ Set.Ico 0 v.size from ⟨le_rfl, hsize⟩)
  exact positive_of_mem_positions hp

/-- In an inferred network, the loops of a flattening layer sweep over its input in row-major order and write each
element to its offset, and offsets increase in this order. If the extents of the input are positive, as they are in
every network that statements declare, then the offsets are the places of the vector, each once, and behind the loops
the vector holds the elements of the input at their offsets. -/
theorem flattening_row_major {net : Network} (hnet : net.infer.2.outcome = .ok true) {s : Site}
    (hs : s.net = net.infer.1) (hmem : (s.layer, s.number) ∈ s.net.numbered) (hk : s.layer.kind = .flatten) :
    ∃ v, s.layer.input = some v ∧ s.layer.output = some (.flat v.size) ∧
      (∀ p ∈ v.positions, ∀ q ∈ v.positions,
        v.offset p < v.offset q ↔ Prod.Lex (· < ·) (Prod.Lex (· < ·) (· < ·)) p q) ∧
      (Set.BijOn v.offset v.positions (Set.Ico 0 v.size) ↔ v.Positive) ∧
      ((∃ ss, (Network.ofStatements ss).outcome = .ok net) → v.Positive) ∧
      ((∃ code, s.flatten = .ok code) ↔ v.Fits ∧ (Volume.flat v.size).Fits) ∧
      ∀ code, s.flatten = .ok code →
        (actionsAll code Scope.empty).filterMap Action.written? =
          (v.sweep.map fun p => (s.output, [v.offset p])) ∧
        (v.Positive → v.sweep.map v.offset = upTo v.size ∧
          ∀ μ σ, σ.Provides s.input v.dims → s.Sized [v.size] σ →
            ∃ σ', runAll μ (actionsAll code Scope.empty) σ = some σ' ∧ ∀ x y z, (x, y, z) ∈ v.positions →
              σ'.cells s.output [v.offset (x, y, z)] = some (σ.entry s.input [x, y, z])) := by
  have hlayer : s.layer ∈ net.infer.1.layers := hs ▸ Network.mem_layers hmem
  obtain ⟨v, hi, ho, hsize⟩ := Network.flatten_of_inferred hnet hlayer hk
  have hcode (code : List Tree) : s.flatten = .ok code ↔ s.layer.Writable ∧ code = s.header ⟨v, .flat v.size⟩ ++
      s.declarations [v.size] ++ s.flattenNest ⟨v, .flat v.size⟩ := Site.flatten_eq_ok hi ho
  refine ⟨v, hi, ho, fun p hp q hq => Volume.offset_lt_iff hp hq, Volume.bijOn_iff_positive hsize, ?_, ?_, ?_⟩
  · rintro ⟨ss, hdecl⟩
    exact Network.input_positive hdecl hnet hlayer hi
  · rw [← Layer.writable_flatten_iff hk hi ho]
    exact ⟨fun ⟨code, h⟩ => ((hcode code).mp h).1, fun h => ⟨_, (hcode _).mpr ⟨h, rfl⟩⟩⟩
  · intro code h
    obtain ⟨-, rfl⟩ := (hcode code).mp h
    refine ⟨?_, fun hpos => ⟨Volume.map_offset_sweep hpos, fun μ σ hin hsized => ?_⟩⟩
    · rw [actionsAll_append, List.filterMap_append, Site.written_prelude, Site.written_flattenNest hk,
        List.nil_append]
    · obtain ⟨σ', hrun, hcells⟩ := Site.flattenNest_stores (μ := μ) hk (Network.mem_numbered_iff.mp hmem).1 hin hsized
        ⟨v, .flat v.size⟩ (.flat v.size) Scope.empty
      refine ⟨σ', hrun, fun x y z hp => ?_⟩
      rw [hcells _ hp, hin.cells_eq (Volume.within_of_mem_positions hp)]

section Pooled

/-- A volume of 4 by 6 by 2 is pooled to 2 by 3 by 2, and then flattened for a dense layer. -/
def pooledNetwork : Network :=
  ⟨[{ form := .pooling .max none ⟨some 2, some 2⟩, input := some ⟨4, 6, 2⟩ }, { form := .flatten none },
    { form := .dense (some 3) }]⟩

def pooledSite : Site where
  net := pooledNetwork.infer.1
  number := 2
  layer := { form := .flatten (some 12), input := some ⟨2, 3, 2⟩, output := some (.flat 12), stride := some 1 }
  config := {}
  order := ⟨.flatten, []⟩

/-- Every cell of the pooled volume holds a number of its own. -/
def pooledMemory : Memory where
  extents b := if b = .between 1 then some [2, 3, 2] else none
  cells _ js := some (js.foldl (fun q j => 10 * q + j) 0)

theorem Volume.fits_of_lt_thousand {v : Volume} (hx : v.x.natAbs < 1000) (hy : v.y.natAbs < 1000)
    (hz : v.z.natAbs < 1000) : v.Fits :=
  ⟨Decimal.fits_of_lt_thousand hx, Decimal.fits_of_lt_thousand hy, Decimal.fits_of_lt_thousand hz⟩

theorem flattening_row_major_pooled : ∃ code σ, pooledSite.flatten = .ok code ∧
    (actionsAll code Scope.empty).filterMap Action.written? = ((upTo 12).map fun k => (.between 2, [k])) ∧
    runAll (fun _ => (· * ·)) (actionsAll code Scope.empty) pooledMemory = some σ ∧
    σ.cells (.between 2) [9] = some 111 := by
  have hinfer : pooledNetwork.infer.2.outcome = .ok true := rfl
  obtain ⟨v, hv, -, -, -, -, hwritable, hall⟩ :=
    flattening_row_major hinfer (s := pooledSite) rfl (by decide) rfl
  cases hv
  obtain ⟨code, hcode⟩ := hwritable.mpr ⟨Volume.fits_of_lt_thousand (by decide) (by decide) (by decide),
    Volume.fits_of_lt_thousand (by decide) (by decide) (by decide)⟩
  obtain ⟨hwritten, hpositive⟩ := hall code hcode
  obtain ⟨-, hrun⟩ := hpositive (by decide)
  obtain ⟨σ, hσ, hcells⟩ := hrun (fun _ => (· * ·)) pooledMemory ⟨rfl, fun _ _ => rfl⟩ (by rintro (h | h) <;> cases h)
  refine ⟨code, σ, hcode, hwritten, hσ, ?_⟩
  exact (hcells 1 1 1 (by simp [Volume.positions])).trans (by decide +kernel)

end Pooled

/-- A volume of -2 by -3 by 1 that no statement can declare has six elements by its extents, and is inferred to a
vector of six. No loop over it has an iteration, and the vector stays as it is. -/
theorem negative_volume_not_flattened : ∃ net : Network, ∃ s : Site, ∃ code,
    net = ⟨[{ form := .flatten none, input := some ⟨-2, -3, 1⟩ }]⟩ ∧ net.infer.2.outcome = .ok true ∧
    s.net = net.infer.1 ∧ (s.layer, s.number) ∈ s.net.numbered ∧ s.layer.kind = .flatten ∧
    s.layer.output = some (.flat 6) ∧ s.flatten = .ok code ∧
    (actionsAll code Scope.empty).filterMap Action.written? = [] := by
  let net : Network := ⟨[{ form := .flatten none, input := some ⟨-2, -3, 1⟩ }]⟩
  let l : Layer := { form := .flatten (some 6), input := some ⟨-2, -3, 1⟩, output := some (.flat 6), stride := some 1 }
  let s : Site := { net := net.infer.1, number := 1, layer := l, config := {}, order := ⟨.flatten, []⟩ }
  have hwritable : l.Writable := (Layer.writable_flatten_iff rfl rfl rfl).mpr
    ⟨Volume.fits_of_lt_thousand (by decide) (by decide) (by decide),
      Volume.fits_of_lt_thousand (by decide) (by decide) (by decide)⟩
  refine ⟨net, s, _, rfl, rfl, rfl, by decide, rfl, rfl, (Site.flatten_eq_ok rfl rfl).mpr ⟨hwritable, rfl⟩, ?_⟩
  rw [actionsAll_append, List.filterMap_append, Site.written_prelude, Site.written_flattenNest rfl]
  rfl

end LayerLoops
