import LayerLoops.Proofs.Sites

/-! # Bounded subscripts

Whatever values the loop variables take below their bounds, the subscripts of an element lie inside the extents
of its buffer. A loop adds its variable to those that are known to be bounded, so that the code of a layer is
checked once for all iterations. -/

namespace LayerLoops

namespace Code

abbrev Bounded := List (Index × Int)

/-- The variables have values from zero up to their bounds. -/
def Scope.Under (ρ : Scope) (l : Bounded) : Prop := ∀ i n, (i, n) ∈ l → ∃ v, ρ.Holds i v n

namespace Scope.Under

variable {ρ : Scope} {l : Bounded}

theorem set (h : ρ.Under l) {k : Index} (hk : k ∉ l.map Prod.fst) (v : Option Int) : (ρ.set k v).Under l := by
  intro i n hmem
  obtain ⟨w, hw⟩ := h i n hmem
  refine ⟨w, hw.set_of_ne ?_ v⟩
  rintro rfl
  exact hk (List.mem_map_of_mem hmem)

theorem cons (h : ρ.Under l) {k : Index} (hk : k ∉ l.map Prod.fst) {v n : Int} (h0 : 0 ≤ v) (hn : v < n) :
    (ρ.set k (some v)).Under ((k, n) :: l) := by
  intro i m hmem
  rcases List.mem_cons.mp hmem with heq | hmem
  · cases heq
    exact ⟨v, ρ.holds_set k h0 hn⟩
  · exact h.set hk _ i m hmem

end Scope.Under

variable {extents : Buffer → Option (List Int)} {l : Bounded}

/-- The element is safe wherever the variables are bounded. -/
def Element.SafeUnder (extents : Buffer → Option (List Int)) (l : Bounded) (e : Element) : Prop :=
  ∀ ρ : Scope, ρ.Under l → e.Safe extents ρ

theorem Element.SafeUnder.mono {e : Element} (h : e.SafeUnder extents l) {l' : Bounded} (hl : l ⊆ l') :
    e.SafeUnder extents l' :=
  fun ρ hρ => h ρ fun i n hmem => hρ i n (hl hmem)

theorem Element.safeUnder_indices {b : Buffer} {t : Bounded} (hb : extents b = some (t.map Prod.snd))
    (hl : ∀ p ∈ t, p ∈ l) : Element.SafeUnder extents l ⟨b, t.map fun p => .index p.1⟩ := by
  intro ρ hρ
  have hloc : ∃ js, Located ρ (t.map fun p => .index p.1) (t.map Prod.snd) js := by
    clear hb
    induction t with
    | nil => exact ⟨[], .nil ρ⟩
    | cons p t ih =>
      obtain ⟨js, hjs⟩ := ih fun q hq => hl q (List.mem_cons_of_mem p hq)
      obtain ⟨v, hv⟩ := hρ p.1 p.2 (hl p List.mem_cons_self)
      exact ⟨v :: js, .index hv hjs⟩
  obtain ⟨js, hjs⟩ := hloc
  exact ⟨_, js, hb, hjs⟩

/-- The statement defines no variable, and its elements are safe wherever the variables are bounded. -/
def Stmt.SafeUnder (extents : Buffer → Option (List Int)) (l : Bounded) (s : Stmt) : Prop :=
  (∀ i e, s ≠ .define i e) ∧ ∀ e ∈ s.elements, e.SafeUnder extents l

namespace Stmt.SafeUnder

theorem inert {s : Stmt} (hs : ∀ i e, s ≠ .define i e) (he : s.elements = []) : s.SafeUnder extents l :=
  ⟨hs, by simp [he]⟩

theorem assign {target : Element} {t : Term} (hx : target.SafeUnder extents l)
    (ht : ∀ e ∈ t.elements, e.SafeUnder extents l) : (Stmt.assign target t).SafeUnder extents l :=
  ⟨by simp, List.forall_mem_cons.mpr ⟨hx, ht⟩⟩

theorem accumulate {target : Element} {t : Term} (hx : target.SafeUnder extents l)
    (ht : ∀ e ∈ t.elements, e.SafeUnder extents l) : (Stmt.accumulate target t).SafeUnder extents l :=
  ⟨by simp, List.forall_mem_cons.mpr ⟨hx, ht⟩⟩

theorem store {value : Element} (h : value.SafeUnder extents l) (number : Nat) (what : String) (x y z : Expr) :
    (Stmt.store number what value x y z).SafeUnder extents l :=
  ⟨by simp, List.forall_mem_singleton.mpr h⟩

end Stmt.SafeUnder

/-- The tree defines no variable for what follows it, and all it does is safe wherever the variables are bounded. -/
structure Tree.SafeUnder (extents : Buffer → Option (List Int)) (l : Bounded) (t : Tree) : Prop where
  scope : ∀ ρ, t.scope ρ = ρ
  actions : ∀ ρ : Scope, ρ.Under l → ∀ a ∈ t.actions ρ, a.Safe extents

theorem safe_of_safeUnder {ts : List Tree} (h : ∀ t ∈ ts, t.SafeUnder extents l) {ρ : Scope} (hρ : ρ.Under l) :
    ∀ a ∈ actionsAll ts ρ, a.Safe extents := by
  induction ts with
  | nil => simp
  | cons t ts ih =>
    intro a ha
    rw [actionsAll_cons, (h t List.mem_cons_self).scope, List.mem_append] at ha
    rcases ha with ha | ha
    · exact (h t List.mem_cons_self).actions ρ hρ a ha
    · exact ih (fun u hu => h u (List.mem_cons_of_mem t hu)) a ha

theorem safe_define {i : Index} {e : Expr} {v : Int} {ts : List Tree} {ρ : Scope} (hv : e.value? ρ = some v)
    (h : ∀ a ∈ actionsAll ts (ρ.set i (some v)), a.Safe extents) :
    ∀ a ∈ actionsAll (.stmt (.define i e) :: ts) ρ, a.Safe extents := by
  rw [← hv] at h
  intro a ha
  rcases List.mem_cons.mp ha with rfl | ha
  · simp [Action.Safe, Stmt.elements]
  · exact h a ha

namespace Tree.SafeUnder

theorem blank : Tree.blank.SafeUnder extents l := ⟨fun _ => rfl, by simp⟩

theorem stmt {s : Stmt} (h : s.SafeUnder extents l) : (Tree.stmt s).SafeUnder extents l where
  scope ρ := by
    cases s with
    | define i e => exact absurd rfl (h.1 i e)
    | _ => rfl
  actions ρ hρ a ha := by
    rw [actions_stmt, List.mem_singleton] at ha
    subst ha
    exact fun e he => h.2 e he ρ hρ

theorem mono {t : Tree} (h : t.SafeUnder extents l) {l' : Bounded} (hl : l ⊆ l') : t.SafeUnder extents l' :=
  ⟨h.scope, fun ρ hρ => h.actions ρ fun i n hmem => hρ i n (hl hmem)⟩

theorem loop {h : Head} {layout : Layout} {body : List Tree} {k : Index} {n : Int} (hk : h.index = k)
    (hn : h.bound = some n) (hg : layout.governs body = true) (hfresh : k ∉ l.map Prod.fst)
    (hbody : ∀ ρ : Scope, ρ.Under ((k, n) :: l) → ∀ a ∈ actionsAll body ρ, a.Safe extents) :
    (Tree.loop h layout body).SafeUnder extents l where
  scope _ := rfl
  actions ρ hρ a ha := by
    subst hk
    rw [actions_loop hn hg, List.mem_flatMap] at ha
    obtain ⟨i, hi, ha⟩ := ha
    have hlt : (i : Int) < n := by
      rw [List.mem_range] at hi
      omega
    exact hbody _ (hρ.cons hfresh (Int.natCast_nonneg i) hlt) a ha

theorem watched {s : Stmt} {stored : List Stmt} (h : ∀ t ∈ s :: stored, t.SafeUnder extents l) :
    (Tree.watched s stored).SafeUnder extents l where
  scope _ := rfl
  actions ρ hρ a ha := by
    obtain ⟨t, ht, rfl⟩ := List.mem_map.mp ha
    exact fun e he => (h t ht).2 e he ρ hρ

theorem simulated {body : List Tree} (h : ∀ t ∈ body, t.SafeUnder extents l) :
    (Tree.simulated body).SafeUnder extents l where
  scope _ := rfl
  actions _ hρ := safe_of_safeUnder h hρ

theorem innermost {h : Head} {k : Index} {n : Int} (hk : h.index = k) (hn : h.bound = some n)
    (hfresh : k ∉ l.map Prod.fst) {body : Stmt} {stored : List Stmt} (hb : body.isSimple = true)
    (hs : ∀ t ∈ body :: stored, t.SafeUnder extents ((k, n) :: l)) :
    (Site.innermost h body stored).SafeUnder extents l := by
  unfold Site.innermost
  split
  · refine loop hk hn hb hfresh fun ρ => safe_of_safeUnder fun t ht => ?_
    cases List.mem_singleton.mp ht
    exact stmt (hs body List.mem_cons_self)
  · refine loop hk hn rfl hfresh fun ρ => safe_of_safeUnder fun t ht => ?_
    cases List.mem_singleton.mp ht
    exact watched hs

theorem nest {h : Head} {hs : List Head} {t : Tree} {k : Index} {n : Int} (hk : h.index = k) (hn : h.bound = some n)
    (hfresh : k ∉ l.map Prod.fst) (ht : t.isSingle = true)
    (hi : ∀ u ∈ Site.nest hs [t], u.SafeUnder extents ((k, n) :: l)) :
    ∀ u ∈ Site.nest (h :: hs) [t], u.SafeUnder extents l := by
  intro u hu
  cases List.mem_singleton.mp hu
  exact loop hk hn (Site.governs_nest ht hs) hfresh fun ρ => safe_of_safeUnder hi

theorem braced {h : Head} {body : List Tree} {k : Index} {n : Int} (hk : h.index = k) (hn : h.bound = some n)
    (hfresh : k ∉ l.map Prod.fst) (hbody : ∀ t ∈ body, t.SafeUnder extents ((k, n) :: l)) :
    ∀ u ∈ [Tree.loop h .braced body], u.SafeUnder extents l := by
  intro u hu
  cases List.mem_singleton.mp hu
  exact loop hk hn rfl hfresh fun ρ => safe_of_safeUnder hbody

theorem ofStmts {ss : List Stmt} (h : ∀ s ∈ ss, s.SafeUnder extents l) :
    ∀ t ∈ Tree.ofStmts ss, t.SafeUnder extents l := by
  intro t ht
  obtain ⟨s, hs, rfl⟩ := List.mem_map.mp ht
  exact stmt (h s hs)

end Tree.SafeUnder

end Code

end LayerLoops
