import LayerLoops.Command
import LayerLoops.Proofs.Outcome
import LayerLoops.Proofs.Texts

/-! # Statements given in the options

The lines of a source can be given in the options, as a list or as one text, and on the command line. What is compiled
depends only on the values that the options have once all of them are merged. -/

namespace LayerLoops

open Options

/-! ## Merged options -/

namespace Options

theorem Value.sameKey_text {k : Value} {key : String} : k.sameKey (.text key) = true ↔ k = .text key := by
  cases k with
  | text s => simp [sameKey]
  | real r => cases r <;> simp [sameKey, dyadic?]
  | _ => simp [sameKey, dyadic?]

namespace Entries

theorem get_cons (k v : Value) (es : Entries) (key : String) :
    get ((k, v) :: es) key = if k.sameKey (.text key) then v else get es key := by
  unfold get
  rw [List.find?_cons]
  dsimp only
  cases k.sameKey (.text key) <;> rfl

theorem get_insert_of_ne (es : Entries) {key other : String} (h : other ≠ key) (v : Value) :
    get (insert (.text key) v es) other = get es other := by
  have hkey : (Value.text key).sameKey (.text other) = false := by
    rw [← Bool.not_eq_true, Value.sameKey_text]
    exact fun heq => h (Value.text.inj heq).symm
  induction es with
  | nil => rw [insert, get_cons, hkey, if_neg (by decide)]
  | cons e es ih =>
    obtain ⟨k, w⟩ := e
    unfold insert
    by_cases hk : k.sameKey (.text key) = true
    · rw [if_pos hk, get_cons, get_cons, Value.sameKey_text.mp hk, hkey, if_neg (by decide), if_neg (by decide)]
    · rw [if_neg hk, get_cons, get_cons, ih]

end Entries

/-- Every override is named by a text. -/
def Named (overrides : Entries) : Prop := ∀ e ∈ overrides, ∃ key, e.1 = .text key

theorem merge_append (o as bs : Entries) : merge o (as ++ bs) = merge (merge o as) bs := List.foldl_append

theorem merge_of_ne_null (o : Entries) (k : Value) {v : Value} (hv : v ≠ .null) : merge o [(k, v)] = o.insert k v := by
  cases v with
  | null => exact absurd rfl hv
  | _ => rfl

theorem get_merge_of_ne (o : Entries) {key other : String} (h : other ≠ key) (v : Value) :
    (merge o [(.text key, v)]).get other = o.get other := by
  by_cases hv : v = .null
  · rw [hv]
    rfl
  · rw [merge_of_ne_null o _ hv, Entries.get_insert_of_ne o h]

theorem get_merge_congr {o o' overrides : Entries} (hnamed : Named overrides) {key : String}
    (h : o.get key = o'.get key) : (merge o overrides).get key = (merge o' overrides).get key := by
  induction overrides generalizing o o' with
  | nil => exact h
  | cons e overrides ih =>
    obtain ⟨⟨other, hother⟩, hrest⟩ := List.forall_mem_cons.mp hnamed
    obtain ⟨k, v⟩ := e
    subst hother
    rw [← List.singleton_append, merge_append, merge_append]
    apply ih hrest
    by_cases hkey : key = other
    · by_cases hv : v = .null
      · rw [hv]
        exact h
      · rw [merge_of_ne_null o _ hv, merge_of_ne_null o' _ hv, hkey, Entries.get_insert_self, Entries.get_insert_self]
    · rw [get_merge_of_ne o hkey, get_merge_of_ne o' hkey, h]

theorem get_merge_of_unset {o overrides : Entries} (hnamed : Named overrides) {key : String}
    (h : ∀ e ∈ overrides, e.1 = .text key → e.2 = .null) : (merge o overrides).get key = o.get key := by
  induction overrides generalizing o with
  | nil => rfl
  | cons e overrides ih =>
    obtain ⟨⟨other, hother⟩, hrest⟩ := List.forall_mem_cons.mp hnamed
    obtain ⟨hfirst, hunset⟩ := List.forall_mem_cons.mp h
    obtain ⟨k, v⟩ := e
    subst hother
    rw [← List.singleton_append, merge_append, ih hrest hunset]
    by_cases hkey : key = other
    · rw [show v = .null from hfirst (congrArg Value.text hkey.symm)]
      rfl
    · exact get_merge_of_ne o hkey v

/-- The name of the option that holds a source. -/
def sourceKey : String := "keras-source-text"

def SameSettings (o o' : Entries) : Prop := ∀ key ≠ sourceKey, o.get key = o'.get key

theorem SameSettings.config {o o' : Entries} (h : SameSettings o o') : config o = config o' := by
  unfold Options.config
  simp only [h "add-main-function" (by decide), h "store-analysis-data" (by decide), h "fault-simulation" (by decide),
    h "single-layer" (by decide), h "loop-hierarchy-labels" (by decide), h "data-type-mode" (by decide),
    h "disable-biases" (by decide), h "approximate-multipliers" (by decide), h "loop-orders" (by decide),
    h "pooling-seed" (by decide), h "data-type-mode-detail" (by decide),
    h "approximate-multipliers-configuration" (by decide), h "approximate-multipliers-type" (by decide),
    h "network-name" (by decide), h "layer-data-location" (by decide)]

theorem SameSettings.source {o o' : Entries} (h : SameSettings o o') :
    source o = (source o').map fun s => { s with text := inlineText (o.get sourceKey) } := by
  unfold Options.source
  rw [h "dump-layers" (by decide), h "log-level" (by decide), h "keras-source-file" (by decide),
    h "output-directory" (by decide), h "log-location" (by decide)]
  cases flag "dump-layers" (o'.get "dump-layers") with
  | error d => rfl
  | ok dump =>
    by_cases hlevel : (!logLevels.contains (Text.lower ((o'.get "log-level").orElse (.text "info")).toText)) = true
    · simp only [hlevel, bind, Except.bind, if_true]
      rfl
    · simp only [hlevel, bind, Except.bind]
      rfl

/-! ## Loaded options -/

/-- The step tells of the program's own progress, and of no error or warning. -/
def Quiet {α : Type} (x : Step α) : Prop := x.Writes fun e => ∃ v, e = .event v ∧ v.direct = true

theorem Quiet.filter {α : Type} {x : Step α} (h : Quiet x) {kept : Entry → Bool}
    (hkept : ∀ v, kept (.event v) = false) : x.journal.filter kept = [] := by
  refine List.filter_eq_nil_iff.mpr fun e he => ?_
  obtain ⟨v, rfl, -⟩ := h e he
  rw [hkept]
  exact Bool.false_ne_true

open Step (Writes writes_pure writes_ofExcept writes_write)

theorem quiet_expandText (env : Environment) (s : String) : Quiet (expandText env s) := by
  refine Writes.bind (Writes.bind (Writes.mapM (fun name => ?_) _) fun _ _ => writes_pure _) fun _ _ => writes_pure _
  split
  · exact writes_ofExcept _
  · exact writes_write ⟨_, rfl, rfl⟩

mutual

theorem quiet_expand (env : Environment) : ∀ v : Value, Quiet (expand env v)
  | .text s => Writes.bind (quiet_expandText env s) fun _ _ => writes_pure _
  | .list items => Writes.bind (quiet_expandItems env items) fun _ _ => writes_pure _
  | .map entries => Writes.bind (quiet_expandEntries env entries) fun _ _ => writes_pure _
  | .null | .boolean _ | .integer _ | .real _ | .bytes _ | .day _ | .moment _ | .pair _ _ | .set _ => writes_pure _

theorem quiet_expandItems (env : Environment) : ∀ vs : List Value, Quiet (expandItems env vs)
  | [] => writes_pure []
  | v :: vs => Writes.bind (quiet_expand env v) fun _ _ => Writes.bind (quiet_expandItems env vs) fun _ _ => writes_pure _

theorem quiet_expandEntries (env : Environment) : ∀ es : List (Value × Value), Quiet (expandEntries env es)
  | [] => writes_pure []
  | (_, v) :: es =>
    Writes.bind (quiet_expand env v) fun _ _ => Writes.bind (quiet_expandEntries env es) fun _ _ => writes_pure _

end

theorem quiet_load (fs : Files) (env : Environment) (path : Option String) (ov : Entries) :
    Quiet (load fs env path ov) := by
  refine Writes.bind (writes_ofExcept _) fun base _ => Writes.bind (quiet_expandEntries env base) fun es _ => ?_
  exact Writes.bind (writes_ofExcept _) fun json _ => Writes.bind (writes_write ⟨_, rfl, rfl⟩) fun _ _ => writes_pure _

end Options

/-! ## What the command compiles -/

namespace Parsed

theorem get_set_self (p : Parsed) (key : String) (v : Value) : (p.set key v).get key = v := by
  simp [get, set]

theorem get_set_of_ne (p : Parsed) {key other : String} (h : other ≠ key) (v : Value) :
    (p.set key v).get other = p.get other := by
  have hlookup (vs : List (String × Value)) : (vs.filter (·.1 ≠ key)).lookup other = vs.lookup other := by
    induction vs with
    | nil => rfl
    | cons e vs ih =>
      obtain ⟨k, w⟩ := e
      by_cases hk : k = key
      · have hne : (other == k) = false := by simp [hk, h]
        rw [List.filter_cons_of_neg (by simp [hk]), List.lookup_cons, hne, ih]
      · rw [List.filter_cons_of_pos (by simp [hk]), List.lookup_cons, List.lookup_cons, ih]
  have hne : (other == key) = false := by simp [h]
  simp only [get, set, List.lookup_cons, hne, hlookup]

end Parsed

namespace Command

def givenText : Value → Value
  | .text s => if s.isEmpty then .null else .text (s.map fun c => if c = '#' then '\n' else c)
  | _ => .null

def overridesBefore (p : Parsed) : Entries :=
  [(.text "keras-source-file", match p.operand with
    | some (some s) => .text s
    | _ => .null)]

def overridesBehind (p : Parsed) : Entries :=
  (.text "output-directory", p.get "output-directory") :: generationSpecs.map fun s => (.text s.key, p.get s.key)

theorem overrides_eq (p : Parsed) :
    overrides p = overridesBefore p ++ ([(Value.text sourceKey, givenText (p.get "text"))] ++ overridesBehind p) := rfl

theorem overridesBehind_set (p : Parsed) (v : Value) : overridesBehind (p.set "text" v) = overridesBehind p := by
  have hkeys : ∀ s ∈ generationSpecs, s.key ≠ "text" := by decide
  unfold overridesBehind
  rw [Parsed.get_set_of_ne p (by decide)]
  congr 1
  exact List.map_congr_left fun s hs => by rw [Parsed.get_set_of_ne p (hkeys s hs)]

theorem overrides_set (p : Parsed) (v : Value) : overrides (p.set "text" v) =
    overridesBefore p ++ ([(Value.text sourceKey, givenText v)] ++ overridesBehind p) := by
  rw [overrides_eq, Parsed.get_set_self, overridesBehind_set]
  rfl

theorem named_before (p : Parsed) : Named (overridesBefore p) := List.forall_mem_singleton.mpr ⟨_, rfl⟩

theorem named_behind (p : Parsed) : Named (overridesBehind p) :=
  List.forall_mem_cons.mpr ⟨⟨_, rfl⟩, List.forall_mem_map.mpr fun s _ => ⟨s.key, rfl⟩⟩

theorem get_merge_behind (o : Entries) (p : Parsed) :
    (merge o (overridesBehind p)).get sourceKey = o.get sourceKey := by
  have hkeys : ∀ s ∈ generationSpecs, s.key ≠ sourceKey := by decide
  apply get_merge_of_unset (named_behind p)
  refine List.forall_mem_cons.mpr ⟨fun h => ?_, List.forall_mem_map.mpr fun s hs h => ?_⟩
  · exact absurd (Value.text.inj h) (by decide)
  · exact absurd (Value.text.inj h) (hkeys s hs)

theorem get_merge_before (o : Entries) (p : Parsed) :
    (merge o (overridesBefore p)).get sourceKey = o.get sourceKey := by
  apply get_merge_of_unset (named_before p)
  exact List.forall_mem_singleton.mpr fun h => absurd (Value.text.inj h) (by decide)

/-- The compilation that is asked for when the options are loaded. -/
def requested (fs : Files) (loaded : Step (Options.Source × Config)) : Except Fault Job := do
  let (s, c) ← loaded.outcome
  jobOf fs loaded.journal s c

def asked (fs : Files) (o : Entries) : Except Fault Job := requested fs (settle o)

theorem requested_loadConfig {fs : Files} {env : Environment} {path : Option String} {ov o : Entries}
    (h : (load fs env path ov).outcome = .ok o) (fs' : Files) :
    requested fs' (loadConfig fs env path ov) = asked fs' o := by
  have hloaded : loadConfig fs env path ov =
      ⟨(load fs env path ov).journal ++ (settle o).journal, (settle o).outcome⟩ := Step.bind_of_ok h
  have hjob : ∀ s c, jobOf fs' ((load fs env path ov).journal ++ (settle o).journal) s c =
      jobOf fs' (settle o).journal s c := by
    intro s c
    -- Only errors and warnings are kept with the compilation, and loading the options tells of none.
    unfold jobOf
    rw [List.filter_append, (quiet_load fs env path ov).filter, List.nil_append]
    exact fun _ => rfl
  rw [hloaded, asked, requested, requested]
  simp only [hjob]

theorem asked_eq (fs : Files) (o : Entries) : asked fs o = ((source o).mapError Fault.reported).bind fun s =>
    (config o).outcome.bind fun c => jobOf fs (config o).journal s c := by
  unfold asked requested settle
  cases hs : source o with
  | error d => rfl
  | ok s =>
    have hsettle : (Step.ofDiagnostic (.ok s) >>= fun s => config o >>= fun c => pure (s, c)) =
        config o >>= fun c => pure (s, c) := rfl
    rw [hsettle]
    cases hc : (config o).outcome with
    | error f =>
      have hstop : (config o >>= fun c => pure (s, c)) = ⟨(config o).journal, .error f⟩ := by
        change (config o).andThen _ = _
        rw [Step.andThen, hc]
      rw [hstop]
      rfl
    | ok c =>
      have hpair : (config o >>= fun c => pure (s, c)) = ⟨(config o).journal, .ok (s, c)⟩ := by
        rw [Step.bind_of_ok hc, Step.journal_pure, List.append_nil, Step.outcome_pure]
      rw [hpair]
      rfl

theorem asked_of_sameSettings {o o' : Entries} (h : SameSettings o o') (fs : Files) :
    asked fs o = ((source o').mapError Fault.reported).bind fun s => (config o').outcome.bind fun c =>
      jobOf fs (config o').journal { s with text := inlineText (o.get sourceKey) } c := by
  rw [asked_eq, h.config, h.source]
  cases source o' <;> rfl

theorem jobOf_text {fs : Files} {j : Journal} {s : Options.Source} {c : Config} {t : String} (ht : t.isEmpty = false) :
    jobOf fs j { s with text := .text t } c = .ok {
      config := c, name := inlineName, document := Source.Document.ofText (some inlineName) t
      prior := j.filter fun e => e matches .error _ | .warning _ } := by
  have hset : (Value.text t).isSet = true := by rw [Value.isSet, ht]; rfl
  unfold jobOf Source.read
  simp only [hset, if_true]
  rfl

theorem jobOf_unset {fs : Files} {j : Journal} {s : Options.Source} {c : Config} {v w : Value} (hv : v.isSet = false)
    (hw : w.isSet = false) : jobOf fs j { s with text := v } c = jobOf fs j { s with text := w } c := by
  unfold jobOf Source.read
  simp only [hv, hw, Bool.false_eq_true, if_false]

end Command

/-! ## The forms of a source -/

open Command Text

/-- The options with a source among them, and the other options of the command line. -/
def withSource (es : Entries) (p : Parsed) (v : Value) : Entries := merge (es.insert (.text sourceKey) v) (overrides p)

section

variable {es : Entries} {p : Parsed}

theorem get_withSource (hp : p.get "text" = .null) (v : Value) : (withSource es p v).get sourceKey = v := by
  rw [withSource, overrides_eq, hp, merge_append, merge_append, get_merge_behind]
  exact (get_merge_before _ p).trans (Entries.get_insert_self es sourceKey v)

theorem sameSettings_withSource (v w : Value) : SameSettings (withSource es p v) (withSource es p w) := by
  intro key hkey
  have hnamed : Named (overrides p) := by
    rw [overrides_eq]
    refine List.forall_mem_append.mpr ⟨named_before p, List.forall_mem_append.mpr ⟨?_, named_behind p⟩⟩
    exact List.forall_mem_singleton.mpr ⟨_, rfl⟩
  apply get_merge_congr hnamed
  rw [Entries.get_insert_of_ne es hkey, Entries.get_insert_of_ne es hkey]

theorem get_text (v : Value) (hes : es.get sourceKey = .null) :
    (merge es (overrides (p.set "text" v))).get sourceKey = givenText v := by
  rw [overrides_set, merge_append, merge_append, get_merge_behind]
  by_cases hv : givenText v = .null
  · rw [hv]
    exact (get_merge_before es p).trans hes
  · rw [merge_of_ne_null _ _ hv, Entries.get_insert_self]

theorem sameSettings_text (hp : p.get "text" = .null) (v w : Value) :
    SameSettings (merge es (overrides (p.set "text" v))) (withSource es p w) := by
  intro key hkey
  rw [withSource, overrides_set, overrides_eq, hp]
  simp only [merge_append]
  apply get_merge_congr (named_behind p)
  rw [get_merge_of_ne _ hkey, get_merge_of_ne _ hkey]
  apply get_merge_congr (named_before p)
  rw [Entries.get_insert_of_ne es hkey]

theorem asked_withSource (hp : p.get "text" = .null) {v : Value} {t : String} (hv : inlineText v = .text t)
    (ht : t ≠ "") (fs : Files) (w : Value) : asked fs (withSource es p v) =
      ((source (withSource es p w)).mapError Fault.reported).bind fun _ =>
        (config (withSource es p w)).outcome.bind fun c => .ok {
          config := c, name := inlineName, document := Source.Document.ofText (some inlineName) t
          prior := (config (withSource es p w)).journal.filter fun e => e matches .error _ | .warning _ } := by
  have hempty : t.isEmpty = false := by rwa [← Bool.not_eq_true, String.isEmpty_iff]
  rw [asked_of_sameSettings (sameSettings_withSource v w), get_withSource hp, hv]
  simp only [jobOf_text hempty]

end

/-- The number of layers of a compilation that is asked for and succeeds. -/
def compiledLayers (x : Except Fault Job) : Option Nat :=
  match x.bind fun j => j.run true with
  | .ok r => if r.success then r.network.map Network.size else none
  | .error _ => none

def twoLayers : List String := ["model.add(Dense(2, input_shape=(3,)))", "model.add(Dense(2))"]

end LayerLoops
