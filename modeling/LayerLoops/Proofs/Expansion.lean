import Mathlib
import LayerLoops.Proofs.InlineSource
import LayerLoops.Proofs.Refusals

/-! # Options from a file and overrides

The texts of an options file are scanned once from the left. Each reference is replaced by the value of its variable, or
kept if the variable is not set, and what was put in is not scanned again. Overrides take the place of values of the
file and are not scanned at all. -/

namespace LayerLoops.Options

variable {env : Environment}

/-! ## One scan of a text -/

def IsName (name : List Char) : Prop := name ≠ [] ∧ '\x7d' ∉ name

def referenceTo (name : List Char) : List Char := '$' :: '\x7b' :: (name ++ ['\x7d'])

/-- One scan of a text from the left: what comes out, and the names of variables that are not set. A character is passed
over only if no reference starts there, and a reference is passed over as a whole. -/
inductive Scan (env : Environment) : List Char → List Char → List String → Prop
  | nil : Scan env [] [] []
  | set {name cs out : List Char} {names : List String} {value : String} :
      IsName name → env.lookup (String.ofList name) = some value → Scan env cs out names →
      Scan env (referenceTo name ++ cs) (value.toList ++ out) names
  | unset {name cs out : List Char} {names : List String} :
      IsName name → env.lookup (String.ofList name) = none → Scan env cs out names →
      Scan env (referenceTo name ++ cs) (referenceTo name ++ out) (String.ofList name :: names)
  | skip {c : Char} {cs out : List Char} {names : List String} :
      (∀ name, IsName name → ¬ referenceTo name <+: c :: cs) → Scan env cs out names →
      Scan env (c :: cs) (c :: out) names

theorem reference?_reference {name : List Char} (h : IsName name) (cs : List Char) :
    reference? ('\x7b' :: (name ++ '\x7d' :: cs)) = some (name, name.length + 2) := by
  have hname : (name ++ '\x7d' :: cs).takeWhile (· != '\x7d') = name := by
    rw [List.takeWhile_append_of_pos, List.takeWhile_cons_of_neg (by decide), List.append_nil]
    intro c hc
    rw [bne_iff_ne]
    rintro rfl
    exact h.2 hc
  have hempty : name.isEmpty = false := by simpa using h.1
  simp [reference?, hname, hempty]

theorem reference?_eq_some {cs name : List Char} {n : Nat} (h : reference? cs = some (name, n)) :
    IsName name ∧ n = name.length + 2 ∧ ∃ rest, cs = '\x7b' :: (name ++ '\x7d' :: rest) := by
  unfold reference? at h
  split at h
  next rest =>
    dsimp only at h
    split at h
    · cases h
    next hfull =>
      obtain ⟨hempty, hlength⟩ : rest.takeWhile (· != '\x7d') ≠ [] ∧
          (rest.takeWhile (· != '\x7d')).length ≠ rest.length := by simpa using hfull
      cases h
      refine ⟨⟨hempty, fun hmem => ?_⟩, rfl, ?_⟩
      · exact absurd (List.mem_takeWhile_imp hmem) (by decide)
      · have hsplit := List.takeWhile_append_dropWhile (p := (· != '\x7d')) (l := rest)
        cases hdrop : rest.dropWhile (· != '\x7d') with
        | nil =>
          rw [hdrop, List.append_nil] at hsplit
          exact absurd (congrArg List.length hsplit) hlength
        | cons d ds =>
          have hd := List.head_dropWhile_not (· != '\x7d') (l := rest) (by rw [hdrop]; exact List.cons_ne_nil _ _)
          simp only [hdrop, List.head_cons, bne_eq_false_iff_eq] at hd
          rw [hdrop, hd] at hsplit
          exact ⟨ds, congrArg _ hsplit.symm⟩
  · cases h

theorem expandFrom_drop (env : Environment) (n : Nat) (cs : List Char) :
    expandFrom env n cs = expandFrom env 0 (cs.drop n) := by
  induction n generalizing cs with
  | zero => rfl
  | succ n ih =>
    cases cs with
    | nil => rfl
    | cons c cs => exact ih cs

theorem referenceTo_append (name cs : List Char) :
    referenceTo name ++ cs = '$' :: '\x7b' :: (name ++ '\x7d' :: cs) := by
  simp [referenceTo]

theorem expandFrom_reference (env : Environment) {name : List Char} (h : IsName name) (cs : List Char) :
    expandFrom env 0 (referenceTo name ++ cs) = (env.lookup (String.ofList name)).elim
      (referenceTo name ++ (expandFrom env 0 cs).1, String.ofList name :: (expandFrom env 0 cs).2)
      fun value => (value.toList ++ (expandFrom env 0 cs).1, (expandFrom env 0 cs).2) := by
  have hdrop : ('\x7b' :: (name ++ '\x7d' :: cs)).drop (name.length + 2) = cs := by
    simp
  have htake : ('\x7b' :: (name ++ '\x7d' :: cs)).take (name.length + 2) = '\x7b' :: (name ++ ['\x7d']) := by
    simp [List.take_append, List.take_of_length_le]
  rw [referenceTo_append, expandFrom, if_pos rfl, reference?_reference h]
  simp only [expandFrom_drop env (name.length + 2), hdrop, htake]
  cases env.lookup (String.ofList name) <;> rfl

theorem expandFrom_skip (env : Environment) {c : Char} {cs : List Char}
    (h : ∀ name, IsName name → ¬ referenceTo name <+: c :: cs) :
    expandFrom env 0 (c :: cs) = (c :: (expandFrom env 0 cs).1, (expandFrom env 0 cs).2) := by
  have hnone : (if c = '$' then reference? cs else none) = none := by
    split
    next hc =>
      rw [Option.eq_none_iff_forall_ne_some]
      rintro ⟨name, n⟩ href
      obtain ⟨hname, -, rest, rfl⟩ := reference?_eq_some href
      refine h name hname ⟨rest, ?_⟩
      rw [referenceTo_append, hc]
    next => rfl
  rw [expandFrom, hnone]

theorem Scan.expandFrom_eq {cs out : List Char} {names : List String} (h : Scan env cs out names) :
    expandFrom env 0 cs = (out, names) := by
  induction h with
  | nil => rfl
  | set hname hvalue _ ih => rw [expandFrom_reference env hname, hvalue, ih, Option.elim]
  | unset hname hvalue _ ih => rw [expandFrom_reference env hname, hvalue, ih, Option.elim]
  | skip hskip _ ih => rw [expandFrom_skip env hskip, ih]

theorem scan_expandFrom (env : Environment) (cs : List Char) :
    Scan env cs (expandFrom env 0 cs).1 (expandFrom env 0 cs).2 := by
  induction hlen : cs.length using Nat.strong_induction_on generalizing cs with
  | _ n ih =>
  cases cs with
  | nil => exact .nil
  | cons c cs =>
    by_cases hc : ∃ name, IsName name ∧ referenceTo name <+: c :: cs
    · obtain ⟨name, hname, rest, hrest⟩ := hc
      have hshort : rest.length < n := by
        rw [← hlen, ← hrest, List.length_append, referenceTo]
        simp
      have hscan := ih rest.length hshort rest rfl
      rw [← hrest, expandFrom_reference env hname]
      cases hvalue : env.lookup (String.ofList name) with
      | some value => exact .set hname hvalue hscan
      | none => exact .unset hname hvalue hscan
    · have hskip : ∀ name, IsName name → ¬ referenceTo name <+: c :: cs := fun name hname hat => hc ⟨name, hname, hat⟩
      rw [expandFrom_skip env hskip]
      exact .skip hskip (ih cs.length (by rw [← hlen]; exact Nat.lt_succ_self _) cs rfl)

/-! ## Values -/

def Value.isScanned : Value → Bool
  | .text _ | .list _ | .map _ => true
  | _ => false

/-- A value of a file with the references in its texts replaced. -/
inductive Expanded (env : Environment) : Value → Value → Prop
  | text {s : String} {out : List Char} {names : List String} :
      Scan env s.toList out names → Expanded env (.text s) (.text (String.ofList out))
  | list {items results : List Value} :
      List.Forall₂ (Expanded env) items results → Expanded env (.list items) (.list results)
  | map {entries results : List (Value × Value)} :
      results.map Prod.fst = entries.map Prod.fst →
      List.Forall₂ (Expanded env) (entries.map Prod.snd) (results.map Prod.snd) →
      Expanded env (.map entries) (.map results)
  | other {v : Value} : v.isScanned = false → Expanded env v v

/-- A text in the value refers to a variable that is not set. -/
inductive Refers (env : Environment) : Value → String → Prop
  | text {s name : String} {out : List Char} {names : List String} :
      Scan env s.toList out names → name ∈ names → Refers env (.text s) name
  | list {items : List Value} {v : Value} {name : String} :
      v ∈ items → Refers env v name → Refers env (.list items) name
  | map {entries : List (Value × Value)} {e : Value × Value} {name : String} :
      e ∈ entries → Refers env e.2 name → Refers env (.map entries) name

theorem refers_map {entries : Entries} {name : String} :
    (∃ e ∈ entries, Refers env e.2 name) ↔ Refers env (.map entries) name := by
  constructor
  · rintro ⟨e, he, hname⟩
    exact .map he hname
  · intro h
    cases h with
    | map he hname => exact ⟨_, he, hname⟩

/-- The step gives this result, and it does so exactly if all of some names can be encoded. -/
def Encodes {α : Type} (s : Step α) (P : String → Prop) (a : α) : Prop :=
  ∀ b, s.outcome = .ok b ↔ b = a ∧ ∀ name, P name → Text.Utf8.unencodablePath? name = none

section Encodes

variable {α β : Type} {s : Step α} {P Q : String → Prop} {a : α}

theorem encodes_pure (a : α) : Encodes (pure a) (fun _ => False) a := by
  intro b
  constructor
  · rintro ⟨⟩
    exact ⟨rfl, fun _ h => h.elim⟩
  · rintro ⟨rfl, -⟩
    rfl

theorem Encodes.mono (hs : Encodes s P a) (h : ∀ name, P name ↔ Q name) : Encodes s Q a :=
  fun b => (hs b).trans (and_congr_right fun _ => forall_congr' fun name => imp_congr_left (h name))

theorem Encodes.bind {f : α → Step β} {b : β} (hs : Encodes s P a) (hf : Encodes (f a) Q b) :
    Encodes (s >>= f) (fun name => P name ∨ Q name) b := by
  intro r
  rw [Step.outcome_bind_eq_ok]
  constructor
  · rintro ⟨x, hx, hr⟩
    obtain ⟨rfl, hp⟩ := (hs x).mp hx
    obtain ⟨hb, hq⟩ := (hf r).mp hr
    exact ⟨hb, fun name => Or.rec (hp name) (hq name)⟩
  · rintro ⟨hb, hall⟩
    exact ⟨a, (hs a).mpr ⟨rfl, fun name h => hall name (.inl h)⟩, (hf r).mpr ⟨hb, fun name h => hall name (.inr h)⟩⟩

theorem Encodes.map (hs : Encodes s P a) (f : α → β) : Encodes (s >>= fun a => pure (f a)) P (f a) :=
  (hs.bind (encodes_pure (f a))).mono fun name => iff_of_eq (or_false (P name))

end Encodes

theorem encodes_mapM {f : String → Step Unit} (hf : ∀ name, Encodes (f name) (· = name) ()) (names : List String) :
    ∃ us, Encodes (names.mapM f) (· ∈ names) us := by
  have hloop (done : List Unit) : ∃ us, Encodes (List.mapM.loop f names done) (· ∈ names) us := by
    induction names generalizing done with
    | nil => exact ⟨_, (encodes_pure _).mono fun name => (iff_of_false id List.not_mem_nil)⟩
    | cons name names ih =>
      obtain ⟨us, hus⟩ := ih (() :: done)
      exact ⟨us, ((hf name).bind hus).mono fun other => List.mem_cons.symm⟩
  exact hloop []

theorem encodes_expandText {s : String} {out : List Char} {names : List String} (h : Scan env s.toList out names) :
    Encodes (expandText env s) (· ∈ names) (String.ofList out) := by
  unfold expandText
  rw [h.expandFrom_eq]
  refine Exists.elim (encodes_mapM (fun name b => ?_) names) fun us hus => (hus.map fun _ => ()).map _
  rw [forall_eq]
  cases hu : Text.Utf8.unencodablePath? name with
  | none => exact iff_of_true rfl ⟨rfl, rfl⟩
  | some u =>
    refine iff_of_false ?_ ?_
    · rintro ⟨⟩
    · rintro ⟨-, ⟨⟩⟩

mutual

theorem expand_spec (env : Environment) :
    ∀ v : Value, ∃ w, Expanded env v w ∧ Encodes (expand env v) (Refers env v) w
  | .text s => by
    have hscan := scan_expandFrom env s.toList
    refine ⟨_, .text hscan, ((encodes_expandText hscan).map Value.text).mono fun name => ⟨.text hscan, ?_⟩⟩
    intro h
    cases h with
    | text hscan' hname =>
      rw [hscan'.expandFrom_eq]
      exact hname
  | .list items => by
    obtain ⟨results, hresults, hencodes⟩ := expandItems_spec env items
    refine ⟨.list results, .list hresults, (hencodes.map Value.list).mono fun name => ⟨?_, ?_⟩⟩
    · rintro ⟨v, hv, hname⟩
      exact .list hv hname
    · intro h
      cases h with
      | list hv hname => exact ⟨_, hv, hname⟩
  | .map entries => by
    obtain ⟨results, hkeys, hresults, hencodes⟩ := expandEntries_spec env entries
    exact ⟨.map results, .map hkeys hresults, (hencodes.map Value.map).mono fun name => refers_map⟩
  | .null | .boolean _ | .integer _ | .real _ | .bytes _ | .day _ | .moment _ | .pair _ _ | .set _ => by
    refine ⟨_, .other rfl, (encodes_pure _).mono fun name => iff_of_false id ?_⟩
    rintro ⟨⟩

theorem expandItems_spec (env : Environment) : ∀ vs : List Value, ∃ ws, List.Forall₂ (Expanded env) vs ws ∧
    Encodes (expandItems env vs) (fun name => ∃ v ∈ vs, Refers env v name) ws
  | [] => ⟨[], .nil, (encodes_pure []).mono fun name => by simp⟩
  | v :: vs => by
    obtain ⟨w, hw, hfirst⟩ := expand_spec env v
    obtain ⟨ws, hws, hrest⟩ := expandItems_spec env vs
    refine ⟨w :: ws, .cons hw hws, (hfirst.bind (hrest.map _)).mono fun name => ?_⟩
    rw [List.exists_mem_cons_iff]

theorem expandEntries_spec (env : Environment) : ∀ es : List (Value × Value), ∃ rs,
    rs.map Prod.fst = es.map Prod.fst ∧ List.Forall₂ (Expanded env) (es.map Prod.snd) (rs.map Prod.snd) ∧
      Encodes (expandEntries env es) (fun name => ∃ e ∈ es, Refers env e.2 name) rs
  | [] => ⟨[], rfl, .nil, (encodes_pure []).mono fun name => by simp⟩
  | (k, v) :: es => by
    obtain ⟨w, hw, hfirst⟩ := expand_spec env v
    obtain ⟨rs, hkeys, hrs, hrest⟩ := expandEntries_spec env es
    refine ⟨(k, w) :: rs, congrArg (k :: ·) hkeys, .cons hw hrs, (hfirst.bind (hrest.map _)).mono fun name => ?_⟩
    rw [List.exists_mem_cons_iff]

end

/-! ## Overrides -/

theorem Value.text_sameKey {s : String} {key : Value} : (Value.text s).sameKey key = true ↔ key = .text s := by
  cases key with
  | text t =>
    rw [sameKey, beq_iff_eq, Value.text.injEq]
    exact eq_comm
  | real r => cases r <;> simp [sameKey, dyadic?]
  | _ => simp [sameKey, dyadic?]

namespace Entries

/-- The value of a key of any kind. -/
def at? (es : Entries) (key : Value) : Option Value := (es.find? fun e => e.1.sameKey key).map Prod.snd

theorem at?_cons (e : Value × Value) (es : Entries) (key : Value) :
    at? (e :: es) key = if e.1.sameKey key then some e.2 else es.at? key := by
  unfold at?
  rw [List.find?_cons]
  cases e.1.sameKey key <;> rfl

theorem at?_text_eq_none {es : Entries} {s : String} (h : .text s ∉ es.map Prod.fst) : es.at? (.text s) = none := by
  rw [at?, Option.map_eq_none_iff, List.find?_eq_none]
  intro e he hkey
  exact h (List.mem_map.mpr ⟨e, he, Value.sameKey_text.mp hkey⟩)

theorem at?_insert (es : Entries) (s : String) (v key : Value) :
    (es.insert (.text s) v).at? key = if (Value.text s).sameKey key then some v else es.at? key := by
  induction es with
  | nil => rw [insert, at?_cons]
  | cons e es ih =>
    unfold insert
    by_cases he : e.1.sameKey (.text s) = true
    · rw [if_pos he, at?_cons, at?_cons, Value.sameKey_text.mp he]
      split <;> rfl
    · rw [if_neg he, at?_cons, at?_cons, ih]
      by_cases hs : (Value.text s).sameKey key = true
      · have hkey : ¬ e.1.sameKey key = true := by rwa [Value.text_sameKey.mp hs]
        rw [if_pos hs, if_pos hs, if_neg hkey]
      · rw [if_neg hs, if_neg hs]

theorem keys_insert (es : Entries) (s : String) (v : Value) : (es.insert (.text s) v).map Prod.fst =
    es.map Prod.fst ++ if (es.at? (.text s)).isNone then [.text s] else [] := by
  induction es with
  | nil => rfl
  | cons e es ih =>
    unfold insert
    rw [at?_cons]
    by_cases he : e.1.sameKey (.text s) = true
    · rw [if_pos he, if_pos he, Option.isNone_some, if_neg Bool.false_ne_true, List.append_nil]
      rfl
    · rw [if_neg he, if_neg he, List.map_cons, ih]
      rfl

end Entries

def insertAll (es as : Entries) : Entries := as.foldl (fun es e => es.insert e.1 e.2) es

theorem merge_eq_insertAll (es overrides : Entries) : merge es overrides = insertAll es (given overrides) := by
  rw [insertAll, given, List.foldl_filter, merge]
  congr 1
  funext es e
  obtain ⟨k, v⟩ := e
  cases v <;> rfl

theorem at?_insertAll {as : Entries} (hnamed : Named as) (hnodup : (as.map Prod.fst).Nodup) (es : Entries)
    (key : Value) : (insertAll es as).at? key = (as.at? key).or (es.at? key) := by
  induction as generalizing es with
  | nil => rfl
  | cons e as ih =>
    obtain ⟨⟨s, hs⟩, hrest⟩ := List.forall_mem_cons.mp hnamed
    obtain ⟨hnew, hnodup⟩ := List.nodup_cons.mp hnodup
    rw [insertAll, List.foldl_cons, ← insertAll, ih hrest hnodup, hs, Entries.at?_insert, Entries.at?_cons, hs]
    by_cases hkey : (Value.text s).sameKey key = true
    · rw [if_pos hkey, if_pos hkey, Value.text_sameKey.mp hkey, Entries.at?_text_eq_none (hs ▸ hnew)]
      rfl
    · rw [if_neg hkey, if_neg hkey]

theorem keys_insertAll {as : Entries} (hnamed : Named as) (hnodup : (as.map Prod.fst).Nodup) (es : Entries) :
    (insertAll es as).map Prod.fst = es.map Prod.fst ++ (as.map Prod.fst).filter fun k => (es.at? k).isNone := by
  induction as generalizing es with
  | nil => exact (List.append_nil _).symm
  | cons e as ih =>
    obtain ⟨⟨s, hs⟩, hrest⟩ := List.forall_mem_cons.mp hnamed
    obtain ⟨hnew, hnodup⟩ := List.nodup_cons.mp hnodup
    have hlater : (as.map Prod.fst).filter (fun k => ((es.insert (.text s) e.2).at? k).isNone) =
        (as.map Prod.fst).filter fun k => (es.at? k).isNone := by
      refine List.filter_congr fun k hk => ?_
      rw [Entries.at?_insert, if_neg]
      intro hkey
      rw [Value.text_sameKey.mp hkey, ← hs] at hk
      exact hnew hk
    rw [insertAll, List.foldl_cons, ← insertAll, ih hrest hnodup, hs, hlater, Entries.keys_insert, List.map_cons,
      List.filter_cons, hs, List.append_assoc]
    cases (es.at? (.text s)).isNone <;> rfl

/-! ## Loaded options -/

theorem forall₂_at? {base es : Entries} (hkeys : es.map Prod.fst = base.map Prod.fst)
    (hvalues : List.Forall₂ (Expanded env) (base.map Prod.snd) (es.map Prod.snd)) (key : Value) :
    Option.Rel (Expanded env) (base.at? key) (es.at? key) := by
  induction base generalizing es with
  | nil =>
    cases List.map_eq_nil_iff.mp hkeys
    exact .none
  | cons e base ih =>
    obtain ⟨d, es, rfl, hd, hrest⟩ := List.map_eq_cons_iff.mp hkeys
    cases hvalues with
    | cons hv hvs =>
      rw [Entries.at?_cons, Entries.at?_cons, hd]
      split
      · exact .some hv
      · exact ih hrest hvs

/-- The options that a file and overrides give: overrides that have a value, and the values of the file with their
references replaced. -/
structure Loaded (env : Environment) (base overrides r : Entries) : Prop where
  override : ∀ key v, (given overrides).at? key = some v → r.at? key = some v
  file : ∀ key, (given overrides).at? key = none → Option.Rel (Expanded env) (base.at? key) (r.at? key)
  /-- The keys of the file, and behind them those of the overrides that are new. -/
  keys : r.map Prod.fst = base.map Prod.fst ++ ((given overrides).map Prod.fst).filter fun k => (base.at? k).isNone

theorem loaded_merge {base es overrides : Entries} (hkeys : es.map Prod.fst = base.map Prod.fst)
    (hvalues : List.Forall₂ (Expanded env) (base.map Prod.snd) (es.map Prod.snd)) (hnamed : Named overrides)
    (hnodup : (overrides.map Prod.fst).Nodup) : Loaded env base overrides (merge es overrides) := by
  have hgiven : Named (given overrides) := fun e he => hnamed e (List.mem_of_mem_filter he)
  have hdistinct : ((given overrides).map Prod.fst).Nodup := (List.filter_sublist.map Prod.fst).nodup hnodup
  have hat := at?_insertAll hgiven hdistinct es
  rw [merge_eq_insertAll]
  refine ⟨fun key v h => ?_, fun key h => ?_, ?_⟩
  · rw [hat, h, Option.some_or]
  · rw [hat, h, Option.none_or]
    exact forall₂_at? hkeys hvalues key
  · rw [keys_insertAll hgiven hdistinct, hkeys]
    refine congrArg _ (List.filter_congr fun k _ => ?_)
    have hvalue := forall₂_at? hkeys hvalues k
    generalize base.at? k = before, es.at? k = after at hvalue
    cases hvalue <;> rfl

theorem load_eq_ok {fs : Files} {path : Option String} {base es overrides o : Entries} {P : String → Prop}
    (hbase : fileEntries fs path = .ok base) (hes : Encodes (expandEntries env base) P es) :
    (load fs env path overrides).outcome = .ok o ↔ o = merge es overrides ∧
      (∀ name, P name → Text.Utf8.unencodablePath? name = none) ∧
      ∃ t, (Value.map (given (merge es overrides))).sortedJson = .ok t := by
  unfold load
  rw [Step.outcome_bind_eq_ok]
  constructor
  · rintro ⟨base', hbase', h⟩
    obtain rfl : base = base' := Except.ok.inj (hbase.symm.trans hbase')
    obtain ⟨es', hes', h⟩ := Step.outcome_bind_eq_ok.mp h
    obtain ⟨rfl, hall⟩ := (hes es').mp hes'
    obtain ⟨t, ht, h⟩ := Step.outcome_bind_eq_ok.mp h
    cases h
    exact ⟨rfl, hall, t, ht⟩
  · rintro ⟨rfl, hall, t, ht⟩
    refine ⟨base, hbase, Step.outcome_bind_eq_ok.mpr ⟨es, (hes es).mpr ⟨rfl, hall⟩, ?_⟩⟩
    exact Step.outcome_bind_eq_ok.mpr ⟨t, ht, rfl⟩

/-- Options are loaded exactly if the names of variables that are not set can be encoded and the options can be written
down. They can be if all their keys are texts and no integer is too long. -/
theorem load_options {fs : Files} {path : Option String} {base overrides : Entries} (env : Environment)
    (hbase : fileEntries fs path = .ok base) (hnamed : Named overrides) (hnodup : (overrides.map Prod.fst).Nodup) :
    ∃ r, Loaded env base overrides r ∧
      (∀ o, (load fs env path overrides).outcome = .ok o ↔ o = r ∧
        (∀ name, Refers env (.map base) name → Text.Utf8.unencodablePath? name = none) ∧
        ∃ t, (Value.map (given r)).sortedJson = .ok t) ∧
      ((Value.map (given r)).Ordinary Decimal.Fits → ∃ t, (Value.map (given r)).sortedJson = .ok t) := by
  obtain ⟨es, hkeys, hvalues, hes⟩ := expandEntries_spec env base
  refine ⟨merge es overrides, loaded_merge hkeys hvalues hnamed hnodup,
    fun o => load_eq_ok hbase (hes.mono fun name => refers_map), fun hordinary => ?_⟩
  cases hjson : (Value.map (given (merge es overrides))).sortedJson with
  | ok t => exact ⟨t, rfl⟩
  | error f =>
    obtain ⟨-, n, hn, hlong⟩ := hordinary.json_failsLong true 0 f hjson
    exact absurd hn hlong

/-! ## Sample files -/

theorem eq_ok_of_toOption {ε α : Type} {x : Except ε α} {a : α} (h : x.toOption = some a) : x = .ok a := by
  cases x with
  | error f => cases h
  | ok b => exact congrArg _ (Option.some.inj h)

theorem Yaml.read_eq_meaning {text : List Char} (ts : List Yaml.Token) (nodes : Array Yaml.Node)
    (hallowed : (Text.codes text).all Yaml.isAllowed = true) (htokens : Yaml.tokens text = (ts, none))
    (hdocument : (Yaml.document.run { tokens := ts }).toOption.map (fun x => (x.1, x.2.nodes)) =
      some (some 0, nodes)) : Yaml.read text = Yaml.meaning nodes 0 := by
  obtain ⟨⟨root, draft⟩, hrun, hx⟩ := Option.map_eq_some_iff.mp hdocument
  cases hx
  rw [Yaml.read, hallowed, htokens]
  dsimp only
  rw [eq_ok_of_toOption hrun]
  rfl

theorem fileEntries_of_read {fs : Files} {path text : String} {es : Entries} (hpath : path ≠ "")
    (htext : (fs.readText path).toOption = some text) (hread : Yaml.read text.toList = .ok (.entries es)) :
    fileEntries fs (some path) = .ok es := by
  have hfile : fileEntries fs (some path) = readFile fs path := by
    unfold fileEntries
    split
    next h => cases h
    next h => exact absurd (Option.some.inj h) hpath
    next h => rw [Option.some.inj h]
  rw [hfile, readFile, eq_ok_of_toOption htext]
  dsimp only
  rw [pure_bind, hread]
  rfl

def sampleText : String := "a: $\x7bX\x7d-$\x7bY\x7d\nb:\n- $\x7bX\x7d\nc: old\n"

def sampleFile : Files := ⟨[(["o.yaml"], .file (.text sampleText))]⟩

def sampleEntries : Entries :=
  [(.text "a", .text "$\x7bX\x7d-$\x7bY\x7d"), (.text "b", .list [.text "$\x7bX\x7d"]), (.text "c", .text "old")]

theorem fileEntries_sampleFile : fileEntries sampleFile (some "o.yaml") = .ok sampleEntries := by
  have htext : (sampleFile.readText "o.yaml").toOption = some sampleText := by decide +kernel
  have hread := Yaml.read_eq_meaning [.blockMapping, .key, .scalar "a" true, .value,
    .scalar "$\x7bX\x7d-$\x7bY\x7d" true, .key, .scalar "b" true, .value, .entry, .scalar "$\x7bX\x7d" true, .key,
    .scalar "c" true, .value, .scalar "old" true, .blockEnd] #[⟨.mapping, .mapping [(1, 2), (3, 4), (6, 7)]⟩,
    ⟨.text, .scalar "a"⟩, ⟨.text, .scalar "$\x7bX\x7d-$\x7bY\x7d"⟩, ⟨.text, .scalar "b"⟩, ⟨.sequence, .sequence [5]⟩,
    ⟨.text, .scalar "$\x7bX\x7d"⟩, ⟨.text, .scalar "c"⟩, ⟨.text, .scalar "old"⟩]
    (show (Text.codes sampleText.toList).all Yaml.isAllowed = true by decide +kernel) (by cbv) (by decide +kernel)
  refine fileEntries_of_read (by decide) htext (hread.trans ?_)
  cbv

/-- A variable whose value looks like a reference, and one that is not set; one override has no value. -/
theorem load_options_sampleFile :
    let env : Environment := [("X", "$\x7bY\x7d")]
    let overrides : Entries := [(.text "a", .null), (.text "c", .text "$\x7bX\x7d"), (.text "d", .boolean true)]
    let r : Entries := [(.text "a", .text "$\x7bY\x7d-$\x7bY\x7d"), (.text "b", .list [.text "$\x7bY\x7d"]),
      (.text "c", .text "$\x7bX\x7d"), (.text "d", .boolean true)]
    Loaded env sampleEntries overrides r ∧ (load sampleFile env (some "o.yaml") overrides).outcome = .ok r := by
  intro env overrides r
  have hnamed : Named overrides := by
    simp [overrides, Named]
  have hnodup : (overrides.map Prod.fst).Nodup := by
    simp [overrides]
  have hload : (load sampleFile env (some "o.yaml") overrides).outcome = .ok r := by
    rw [load, fileEntries_sampleFile]
    rfl
  obtain ⟨o, ho, hiff, -⟩ := load_options env fileEntries_sampleFile hnamed hnodup
  exact ⟨((hiff r).mp hload).1 ▸ ho, hload⟩

def mixedKeys : Files := ⟨[(["o.yaml"], .file (.text "1: a\nb: c\n"))]⟩

/-- Keys that have no order cannot be written down, and no options are returned. -/
theorem mixedKeys_not_loaded : fileEntries mixedKeys (some "o.yaml") =
      .ok [(.integer 1, .text "a"), (.text "b", .text "c")] ∧
    ∀ env, (load mixedKeys env (some "o.yaml") []).outcome = .error (.notComparable "str" "int") := by
  have htext : (mixedKeys.readText "o.yaml").toOption = some "1: a\nb: c\n" := by decide +kernel
  have hread := Yaml.read_eq_meaning [.blockMapping, .key, .scalar "1" true, .value, .scalar "a" true, .key,
    .scalar "b" true, .value, .scalar "c" true, .blockEnd] #[⟨.mapping, .mapping [(1, 2), (3, 4)]⟩,
    ⟨.integer, .scalar "1"⟩, ⟨.text, .scalar "a"⟩, ⟨.text, .scalar "b"⟩, ⟨.text, .scalar "c"⟩]
    (show (Text.codes "1: a\nb: c\n".toList).all Yaml.isAllowed = true by decide +kernel) (by cbv) (by decide +kernel)
  have hfile : fileEntries mixedKeys (some "o.yaml") = .ok [(.integer 1, .text "a"), (.text "b", .text "c")] := by
    refine fileEntries_of_read (by decide) htext (hread.trans ?_)
    cbv
  refine ⟨hfile, fun env => ?_⟩
  rw [load, hfile]
  rfl

end LayerLoops.Options
