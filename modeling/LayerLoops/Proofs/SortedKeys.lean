import LayerLoops.Options.Json
import LayerLoops.Proofs.Outcome

/-! # Entries whose keys can be sorted

Any two texts can be compared, so that sorting by keys that are texts comes to an end, and gives no entry that was not
there before. A value whose maps have such keys can be written if its numerals are short enough. -/

namespace LayerLoops.Options

namespace Keyed

variable {α : Type} {Q : Value × α → Prop} (hQ : ∀ e, Q e → ∃ s, e.1 = .text s)

include hQ

variable {es : List (Value × α)} {runs : List (Run α)}

theorem keyLt_returns {a b : Value × α} (ha : Q a) (hb : Q b) : ∃ before, a.1.keyLt b.1 = .ok before := by
  obtain ⟨s, hs⟩ := hQ a ha
  obtain ⟨t, ht⟩ := hQ b hb
  rw [hs, ht]
  exact ⟨_, rfl⟩

theorem place_returns {e : Value × α} (he : Q e) {done : Array (Value × α)} (hdone : ∀ d ∈ done.toList, Q d)
    (low high : Nat) : ∃ r, place e done low high = .ok r ∧ ∀ d ∈ r.toList, Q d := by
  fun_induction place e done low high with
  | case1 low high hlt middle hnone =>
    refine ⟨done.push e, rfl, ?_⟩
    simpa [or_imp, forall_and] using ⟨by simpa using hdone, he⟩
  | case2 low high hlt middle m hm before after =>
    obtain ⟨less, hless⟩ := keyLt_returns hQ he (hdone m (Array.mem_toList_iff.mpr (Array.mem_of_getElem? hm)))
    rw [hless]
    cases less with
    | true => exact before
    | false => exact after
  | case3 low high hge =>
    refine ⟨_, rfl, ?_⟩
    intro d hd
    rw [List.toList_toArray, List.mem_append, List.mem_cons] at hd
    rcases hd with hd | rfl | hd
    · exact hdone d (List.mem_of_mem_take hd)
    · exact he
    · exact hdone d (List.mem_of_mem_drop hd)

theorem ascending_returns {last : Value × α} (hlast : Q last) (hes : ∀ e ∈ es, Q e) :
    ∃ run rest, ascending last es = .ok (run, rest) ∧ (∀ e ∈ run, Q e) ∧ ∀ e ∈ rest, Q e := by
  induction es generalizing last with
  | nil => exact ⟨[], [], rfl, by simp, by simp⟩
  | cons e es ih =>
    obtain ⟨he, hrest⟩ := List.forall_mem_cons.mp hes
    obtain ⟨less, hless⟩ := keyLt_returns hQ he hlast
    rw [ascending, hless]
    cases less with
    | true => exact ⟨[], e :: es, rfl, by simp, hes⟩
    | false =>
      obtain ⟨run, rest, heq, hrun, hrest⟩ := ih he hrest
      refine ⟨e :: run, rest, ?_, List.forall_mem_cons.mpr ⟨he, hrun⟩, hrest⟩
      simp [heq]

theorem descending_returns {last : Value × α} (hlast : Q last) (hes : ∀ e ∈ es, Q e) :
    ∃ run rest, descending last es = .ok (run, rest) ∧ (∀ e ∈ run, Q e) ∧ ∀ e ∈ rest, Q e := by
  induction es generalizing last with
  | nil => exact ⟨[], [], rfl, by simp, by simp⟩
  | cons e es ih =>
    obtain ⟨he, hrest⟩ := List.forall_mem_cons.mp hes
    obtain ⟨less, hless⟩ := keyLt_returns hQ he hlast
    rw [descending, hless]
    cases less with
    | false => exact ⟨[], e :: es, rfl, by simp, hes⟩
    | true =>
      obtain ⟨run, rest, heq, hrun, hrest⟩ := ih he hrest
      refine ⟨e :: run, rest, ?_, List.forall_mem_cons.mpr ⟨he, hrun⟩, hrest⟩
      simp [heq]

theorem firstRun_returns (hes : ∀ e ∈ es, Q e) :
    ∃ run rest, firstRun es = .ok (run, rest) ∧ (∀ e ∈ run, Q e) ∧ ∀ e ∈ rest, Q e := by
  match es with
  | [] => exact ⟨[], [], rfl, by simp, by simp⟩
  | [e] => exact ⟨[e], [], rfl, hes, by simp⟩
  | a :: b :: es =>
    obtain ⟨ha, hb, hes⟩ := List.forall_mem_cons.mp hes |>.imp_right List.forall_mem_cons.mp
    obtain ⟨less, hless⟩ := keyLt_returns hQ hb ha
    rw [firstRun, hless]
    cases less with
    | true =>
      obtain ⟨run, rest, heq, hrun, hrest⟩ := descending_returns hQ hb hes
      have hall : ∀ e ∈ a :: b :: run, Q e := List.forall_mem_cons.mpr ⟨ha, List.forall_mem_cons.mpr ⟨hb, hrun⟩⟩
      exact ⟨(a :: b :: run).reverse, rest, by simp [heq], fun e he => hall e (List.mem_reverse.mp he), hrest⟩
    | false =>
      obtain ⟨run, rest, heq, hrun, hrest⟩ := ascending_returns hQ hb hes
      have hall : ∀ e ∈ a :: b :: run, Q e := List.forall_mem_cons.mpr ⟨ha, List.forall_mem_cons.mpr ⟨hb, hrun⟩⟩
      exact ⟨a :: b :: run, rest, by simp [heq], hall, hrest⟩

theorem merge_returns {as bs : List (Value × α)} (has : ∀ e ∈ as, Q e) (hbs : ∀ e ∈ bs, Q e) :
    ∃ es, merge as bs = .ok es ∧ ∀ e ∈ es, Q e := by
  fun_induction merge as bs with
  | case1 bs => exact ⟨bs, rfl, hbs⟩
  | case2 as => exact ⟨as, rfl, has⟩
  | case3 a as b bs second first =>
    obtain ⟨ha, has'⟩ := List.forall_mem_cons.mp has
    obtain ⟨hb, hbs'⟩ := List.forall_mem_cons.mp hbs
    obtain ⟨less, hless⟩ := keyLt_returns hQ hb ha
    rw [hless]
    cases less with
    | true =>
      obtain ⟨es, heq, hes⟩ := second has hbs'
      exact ⟨b :: es, by simp [heq], List.forall_mem_cons.mpr ⟨hb, hes⟩⟩
    | false =>
      obtain ⟨es, heq, hes⟩ := first has' hbs
      exact ⟨a :: es, by simp [heq], List.forall_mem_cons.mpr ⟨ha, hes⟩⟩

theorem Run.merge_returns {r s : Run α} (hr : ∀ e ∈ r.entries, Q e) (hs : ∀ e ∈ s.entries, Q e) :
    ∃ t, r.merge s = .ok t ∧ ∀ e ∈ t.entries, Q e := by
  obtain ⟨es, heq, hes⟩ := Keyed.merge_returns hQ hr hs
  exact ⟨{ r with entries := es, power := s.power }, by simp [Run.merge, heq], hes⟩

theorem collapse_returns (power : Nat) (hruns : ∀ r ∈ runs, ∀ e ∈ r.entries, Q e) :
    ∃ rs, collapse power runs = .ok rs ∧ ∀ r ∈ rs, ∀ e ∈ r.entries, Q e := by
  fun_induction collapse power runs with
  | case1 s r rest hpower ih =>
    obtain ⟨hs, hr, hrest⟩ := List.forall_mem_cons.mp hruns |>.imp_right List.forall_mem_cons.mp
    obtain ⟨t, heq, ht⟩ := Run.merge_returns hQ hr hs
    obtain ⟨rs, hrs⟩ := ih t (List.forall_mem_cons.mpr ⟨ht, hrest⟩)
    exact ⟨rs, by simpa [heq] using hrs.1, hrs.2⟩
  | case2 s r rest hpower => exact ⟨_, rfl, hruns⟩
  | case3 runs => exact ⟨runs, rfl, hruns⟩

theorem push_returns (n start : Nat) (hes : ∀ e ∈ es, Q e) (hruns : ∀ r ∈ runs, ∀ e ∈ r.entries, Q e) :
    ∃ rs, push n start es runs = .ok rs ∧ ∀ r ∈ rs, ∀ e ∈ r.entries, Q e := by
  unfold push
  cases runs with
  | nil => exact ⟨_, rfl, List.forall_mem_cons.mpr ⟨hes, by simp⟩⟩
  | cons last runs =>
    obtain ⟨rs, heq, hrs⟩ := collapse_returns hQ (last.powerBefore es.length n) hruns
    simp only [heq]
    cases rs with
    | nil => exact ⟨_, rfl, List.forall_mem_cons.mpr ⟨hes, by simp⟩⟩
    | cons r rs =>
      obtain ⟨hr, hrest⟩ := List.forall_mem_cons.mp hrs
      exact ⟨_, rfl, List.forall_mem_cons.mpr ⟨hes, List.forall_mem_cons.mpr ⟨hr, hrest⟩⟩⟩

theorem mergeRuns_returns (fuel : Nat) (hruns : ∀ r ∈ runs, ∀ e ∈ r.entries, Q e) :
    ∃ es, mergeRuns fuel runs = .ok es ∧ ∀ e ∈ es, Q e := by
  fun_induction mergeRuns fuel runs with
  | case1 fuel t s r rest hlt ih =>
    obtain ⟨ht, hs, hr, hrest⟩ := List.forall_mem_cons.mp hruns |>.imp_right List.forall_mem_cons.mp
      |>.imp_right (And.imp_right List.forall_mem_cons.mp)
    obtain ⟨u, heq, hu⟩ := Run.merge_returns hQ hr hs
    rw [heq]
    exact ih u (List.forall_mem_cons.mpr ⟨ht, List.forall_mem_cons.mpr ⟨hu, hrest⟩⟩)
  | case2 fuel t s r rest hge ih =>
    obtain ⟨ht, hs, hr, hrest⟩ := List.forall_mem_cons.mp hruns |>.imp_right List.forall_mem_cons.mp
      |>.imp_right (And.imp_right List.forall_mem_cons.mp)
    obtain ⟨u, heq, hu⟩ := Run.merge_returns hQ hs ht
    rw [heq]
    exact ih u (List.forall_mem_cons.mpr ⟨hu, List.forall_mem_cons.mpr ⟨hr, hrest⟩⟩)
  | case3 fuel s r =>
    obtain ⟨hs, hr, -⟩ := List.forall_mem_cons.mp hruns |>.imp_right List.forall_mem_cons.mp
    obtain ⟨t, heq, ht⟩ := Run.merge_returns hQ hr hs
    exact ⟨t.entries, by simp [heq], ht⟩
  | case4 fuel r => exact ⟨r.entries, rfl, hruns r List.mem_cons_self⟩
  | case5 fuel runs => exact ⟨[], rfl, by simp⟩

theorem fill_returns {done : Array (Value × α)} (hdone : ∀ d ∈ done.toList, Q d) (hes : ∀ e ∈ es, Q e) :
    ∃ r, es.foldlM (fun done e => place e done 0 done.size) done = .ok r ∧ ∀ d ∈ r.toList, Q d := by
  induction es generalizing done with
  | nil => exact ⟨done, rfl, hdone⟩
  | cons e es ih =>
    obtain ⟨he, hes⟩ := List.forall_mem_cons.mp hes
    obtain ⟨next, heq, hnext⟩ := place_returns hQ he hdone 0 done.size
    rw [List.foldlM_cons, heq]
    exact ih hnext hes

theorem runsOf_returns (fuel n start : Nat) (hes : ∀ e ∈ es, Q e) (hruns : ∀ r ∈ runs, ∀ e ∈ r.entries, Q e) :
    ∃ rs, runsOf fuel n start es runs = .ok rs ∧ ∀ r ∈ rs, ∀ e ∈ r.entries, Q e := by
  induction fuel generalizing start es runs with
  | zero => exact ⟨runs, by cases es <;> rfl, hruns⟩
  | succ fuel ih =>
    cases es with
    | nil => exact ⟨runs, rfl, hruns⟩
    | cons e es =>
      obtain ⟨run, rest, hfirst, hrun, hrest⟩ := firstRun_returns hQ hes
      have hfront : ∀ e ∈ rest.take (leastRun n - run.length), Q e := fun e he => hrest e (List.mem_of_mem_take he)
      have hback : ∀ e ∈ rest.drop (leastRun n - run.length), Q e := fun e he => hrest e (List.mem_of_mem_drop he)
      have hstart : ∀ d ∈ run.toArray.toList, Q d := hrun
      obtain ⟨filled, hfill, hfilled⟩ := fill_returns hQ hstart hfront
      obtain ⟨rs, hpush, hrs⟩ := push_returns hQ n start hfilled hruns
      obtain ⟨final, heq, hfinal⟩ := ih (start + filled.size) hback hrs
      exact ⟨final, by simp [runsOf, hfirst, hfill, hpush, heq], hfinal⟩

theorem sorted_returns (hes : ∀ e ∈ es, Q e) : ∃ rs, sorted es = .ok rs ∧ ∀ e ∈ rs, Q e := by
  have hnone : ∀ r ∈ ([] : List (Run α)), ∀ e ∈ r.entries, Q e := by simp
  obtain ⟨runs, hruns, hall⟩ := runsOf_returns hQ es.length es.length 0 hes hnone
  obtain ⟨rs, hrs, hfinal⟩ := mergeRuns_returns hQ runs.length hall
  exact ⟨rs, by simp [sorted, hruns, hrs], hfinal⟩

end Keyed

/-! ## Values that can be written -/

variable {P : Int → Prop}

mutual

/-- All maps in the value have texts for keys, and all integers in it are `P`. -/
def Value.Ordinary (P : Int → Prop) : Value → Prop
  | .integer n => P n
  | .pair a b => a.Ordinary P ∧ b.Ordinary P
  | .list items => ordinaryItems P items
  | .map entries => ordinaryEntries P entries
  | _ => True

def ordinaryItems (P : Int → Prop) : List Value → Prop
  | [] => True
  | v :: vs => v.Ordinary P ∧ ordinaryItems P vs

def ordinaryEntries (P : Int → Prop) : List (Value × Value) → Prop
  | [] => True
  | (k, v) :: rest => (∃ s, k = .text s) ∧ v.Ordinary P ∧ ordinaryEntries P rest

end

/-- The entry can be written as a member unless a numeral in it is too long. -/
def IsMember (P : Int → Prop) (e : Value × Except Fault String) : Prop := (∃ s, e.1 = .text s) ∧ FailsLong P e.2

theorem jsonMembers_failsLong {es : List (Value × Except Fault String)} (h : ∀ e ∈ es, IsMember P e) :
    FailsLong P (jsonMembers es) := by
  apply FailsLong.mapM
  rintro ⟨k, text⟩ he
  obtain ⟨⟨s, rfl⟩, htext⟩ := h _ he
  exact htext.bind fun t _ => failsLong_ok _

mutual

theorem Value.Ordinary.json_failsLong {v : Value} (h : v.Ordinary P) (sort : Bool) (level : Nat) :
    FailsLong P (v.jsonAt sort level) := by
  match v with
  | .null | .boolean _ | .real _ | .text _ | .bytes _ | .day _ | .moment _ | .set _ => exact failsLong_ok _
  | .integer n => exact (failsLong_writable h).map _
  | .pair a b =>
    refine FailsLong.bind (Value.Ordinary.json_failsLong h.1 sort (level + 1)) fun s _ => ?_
    exact FailsLong.bind (Value.Ordinary.json_failsLong h.2 sort (level + 1)) fun t _ => failsLong_ok _
  | .list items => exact (FailsLong.mapM (ordinaryItems_failsLong h sort (level + 1))).bind fun ts _ => failsLong_ok _
  | .map entries =>
    have hmembers := ordinaryEntries_members h sort (level + 1)
    cases sort with
    | true =>
      obtain ⟨texts, hsorted, htexts⟩ := Keyed.sorted_returns (fun e he => he.1) hmembers
      simp only [Value.jsonAt, hsorted, if_true]
      exact (jsonMembers_failsLong htexts).bind fun ts _ => failsLong_ok _
    | false => exact (jsonMembers_failsLong hmembers).bind fun ts _ => failsLong_ok _

theorem ordinaryItems_failsLong {vs : List Value} (h : ordinaryItems P vs) (sort : Bool) (level : Nat) :
    ∀ x ∈ jsonItems sort level vs, FailsLong P (id x) := by
  match vs with
  | [] => simp [jsonItems]
  | v :: vs =>
    rw [jsonItems]
    exact List.forall_mem_cons.mpr
      ⟨Value.Ordinary.json_failsLong h.1 sort level, ordinaryItems_failsLong h.2 sort level⟩

theorem ordinaryEntries_members {es : List (Value × Value)} (h : ordinaryEntries P es) (sort : Bool) (level : Nat) :
    ∀ e ∈ jsonEntries sort level es, IsMember P e := by
  match es with
  | [] => simp [jsonEntries]
  | (k, v) :: es =>
    obtain ⟨hk, hv, hes⟩ := h
    rw [jsonEntries]
    exact List.forall_mem_cons.mpr
      ⟨⟨hk, Value.Ordinary.json_failsLong hv sort level⟩, ordinaryEntries_members hes sort level⟩

end

end LayerLoops.Options
