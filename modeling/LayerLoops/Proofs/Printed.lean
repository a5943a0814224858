import LayerLoops.Command
import LayerLoops.Proofs.Numbering
import LayerLoops.Proofs.SortedKeys

/-! # What is printed about a compilation

The table of layers, the report and the summary are printed unless a numeral in them is too long. All numerals in them
are those of numbers that the network has. -/

namespace LayerLoops

open Options (Value)

def Form.numbers : Form → List Int
  | .conv n k _ | .pooling _ n k => n.toList ++ k.rows.toList ++ k.cols.toList
  | .flatten n | .dense n => n.toList

def Volume.numbers (v : Volume) : List Int := [v.x, v.y, v.z]

def Layer.numbers (l : Layer) : List Int :=
  l.form.numbers ++ l.stride.toList ++ (l.input.toList ++ l.output.toList).flatMap Volume.numbers

/-- All numbers of a network: those of each layer, and its position. -/
def Network.numbers (net : Network) : List Int := net.numbered.flatMap fun (l, n) => (n : Int) :: l.numbers

variable {P : Int → Prop}

theorem failsLong_countCell {d : Option Int} (h : ∀ n ∈ d, P n) : FailsLong P (countCell d) := by
  cases d with
  | none => exact failsLong_ok _
  | some n =>
    have hn : FailsLong P ((writable n).map toString) := (failsLong_writable (h n rfl)).map _
    rw [countCell]
    split
    · exact failsLong_ok _
    · exact hn

theorem failsLong_volume {v : Volume} (h : ∀ n ∈ v.numbers, P n) : FailsLong P v.writable := by
  intro f hf
  unfold Volume.writable at hf
  split at hf
  · cases hf
  · rename_i hfits
    cases hf
    refine ⟨rfl, ?_⟩
    by_contra hshort
    have hall : ∀ n ∈ v.numbers, Decimal.Fits n := by
      intro n hn
      by_contra hlong
      exact hshort ⟨n, h n hn, hlong⟩
    have hx := hall v.x (by simp [Volume.numbers])
    have hy := hall v.y (by simp [Volume.numbers])
    have hz := hall v.z (by simp [Volume.numbers])
    exact hfits (And.intro hx (And.intro hy hz))

theorem failsLong_volumeCells {v : Option Volume} (h : ∀ w ∈ v, ∀ n ∈ w.numbers, P n) :
    FailsLong P (volumeCells v) := by
  unfold volumeCells
  split
  · exact (failsLong_volume (h _ rfl)).map _
  · exact failsLong_ok _

theorem failsLong_volumeNote {v : Option Volume} (h : ∀ w ∈ v, ∀ n ∈ w.numbers, P n) :
    FailsLong P (Compilation.volumeNote v) := by
  unfold Compilation.volumeNote
  split
  · exact (failsLong_volume (h _ rfl)).map _
  · exact failsLong_ok _

namespace Layer

variable {l : Layer}

theorem mem_numbers_input (h : ∀ n ∈ l.numbers, P n) : ∀ v ∈ l.input, ∀ n ∈ v.numbers, P n := by
  intro v hv n hn
  refine h n (List.mem_append_right _ (List.mem_flatMap.mpr ⟨v, ?_, hn⟩))
  exact List.mem_append_left _ (Option.mem_toList.mpr hv)

theorem mem_numbers_output (h : ∀ n ∈ l.numbers, P n) : ∀ v ∈ l.output, ∀ n ∈ v.numbers, P n := by
  intro v hv n hn
  refine h n (List.mem_append_right _ (List.mem_flatMap.mpr ⟨v, ?_, hn⟩))
  exact List.mem_append_right _ (Option.mem_toList.mpr hv)

theorem mem_numbers_stride (h : ∀ n ∈ l.numbers, P n) : ∀ n ∈ l.stride, P n := by
  intro n hn
  apply h n
  exact List.mem_append_left _ (List.mem_append_right _ (Option.mem_toList.mpr hn))

theorem failsLong_cells (h : ∀ n ∈ l.numbers, P n) : FailsLong P l.cells := by
  have hcount {n : Option Int} (hn : ∀ m ∈ n, m ∈ l.form.numbers) : FailsLong P (countCell n) :=
    failsLong_countCell fun m hm => h m (List.mem_append_left _ (List.mem_append_left _ (hn m hm)))
  refine (hcount ?filters).bind fun _ _ => (hcount ?rows).bind fun _ _ => (hcount ?cols).bind fun _ _ =>
    (hcount ?nodes).bind fun _ _ => ?_
  case filters | rows | cols | nodes => cases l.form <;> simp +contextual [Form.numbers, Form.kernel]
  refine (failsLong_countCell (mem_numbers_stride h)).bind fun _ _ => ?_
  refine (failsLong_volumeCells (mem_numbers_input h)).bind fun _ _ => ?_
  exact (failsLong_volumeCells (mem_numbers_output h)).bind fun _ _ => failsLong_ok _

end Layer

theorem Network.mem_numbers {net : Network} (h : ∀ n ∈ net.numbers, P n) {l : Layer} {k : Nat}
    (hl : (l, k) ∈ net.numbered) : P k ∧ ∀ n ∈ l.numbers, P n := by
  have hall : ∀ n ∈ (k : Int) :: l.numbers, P n := fun n hn => h n (List.mem_flatMap.mpr ⟨(l, k), hl, hn⟩)
  exact List.forall_mem_cons.mp hall

theorem Network.failsLong_dump {net : Network} (h : ∀ n ∈ net.numbers, P n) : FailsLong P net.dump := by
  refine (FailsLong.mapM fun l hl => ?_).bind fun _ _ => failsLong_ok _
  rw [← net.map_fst_numbered] at hl
  obtain ⟨⟨l, k⟩, hk, rfl⟩ := List.mem_map.mp hl
  exact Layer.failsLong_cells (net.mem_numbers h hk).2

namespace Compilation

variable {r : Compilation}

theorem failsLong_layerLine {l : Layer} (h : ∀ n ∈ l.numbers, P n) (k : Nat) (o : LoopOrder) :
    FailsLong P (layerLine l k o) := by
  have hstride : FailsLong P (writableDim (if l.kind = .conv then l.stride else none)) := by
    unfold writableDim
    split
    · rename_i n hn
      refine (failsLong_writable (Layer.mem_numbers_stride h n ?_)).map _
      split_ifs at hn
      exact hn
    · exact failsLong_ok _
  refine hstride.bind fun _ _ => ?_
  refine (failsLong_volumeNote (Layer.mem_numbers_input h)).bind fun _ _ => ?_
  exact (failsLong_volumeNote (Layer.mem_numbers_output h)).bind fun _ _ => failsLong_ok _

theorem failsLong_summary (h : ∀ net ∈ r.network, ∀ n ∈ net.numbers, P n) : FailsLong P r.summary := by
  refine FailsLong.bind (FailsLong.bind ?_ fun _ _ => failsLong_ok _) fun _ _ => failsLong_ok _
  unfold layerLines
  split
  · exact failsLong_ok _
  · rename_i net hnet
    refine (FailsLong.mapM ?_).bind fun _ _ => failsLong_ok _
    rintro ⟨⟨l, k⟩, o⟩ hl
    exact failsLong_layerLine (net.mem_numbers (h net hnet) (List.of_mem_zip hl).1).2 k o

theorem ordinary_items {vs : List Value} (h : ∀ v ∈ vs, v.Ordinary P) : Options.ordinaryItems P vs := by
  induction vs with
  | nil => trivial
  | cons v vs ih =>
    obtain ⟨hv, hvs⟩ := List.forall_mem_cons.mp h
    exact ⟨hv, ih hvs⟩

theorem ordinary_record {members : List (String × Value)} (h : ∀ m ∈ members, m.2.Ordinary P) :
    (record members).Ordinary P := by
  change Options.ordinaryEntries P _
  induction members with
  | nil => trivial
  | cons m members ih =>
    obtain ⟨hm, hrest⟩ := List.forall_mem_cons.mp h
    exact ⟨⟨m.1, rfl⟩, hm, ih hrest⟩

theorem ordinary_optionalText (s : Option String) : (optionalText s).Ordinary P := by
  cases s <;> trivial

theorem ordinary_volumeValue {v : Option Volume} (h : ∀ w ∈ v, ∀ n ∈ w.numbers, P n) : (volumeValue v).Ordinary P := by
  cases v with
  | none => trivial
  | some v =>
    have hv := h v rfl
    exact ⟨hv v.x (by simp [Volume.numbers]), hv v.y (by simp [Volume.numbers]), hv v.z (by simp [Volume.numbers]), trivial⟩

theorem ordinary_report (h : ∀ net ∈ r.network, ∀ n ∈ net.numbers, P n) : r.report.Ordinary P := by
  have hlayer : ∀ x ∈ r.orderedLayers, (layerValue x.1.1 x.1.2 x.2).Ordinary P := by
    rintro ⟨⟨l, k⟩, o⟩ hx
    obtain ⟨net, hnet, hl⟩ : ∃ net, r.network = some net ∧ (l, k) ∈ net.numbered := by
      unfold orderedLayers at hx
      split at hx
      · cases hx
      · rename_i net hnet
        refine ⟨net, hnet, ?_⟩
        split at hx
        · obtain ⟨y, hy, hpair⟩ := List.mem_map.mp hx
          cases hpair
          exact hy
        · exact (List.of_mem_zip hx).1
    obtain ⟨hk, hnumbers⟩ := net.mem_numbers (h net hnet) hl
    refine ordinary_record ?_
    simp only [List.forall_mem_cons, List.not_mem_nil, false_imp_iff, implies_true, and_true]
    exact ⟨hk, trivial, ordinary_volumeValue (Layer.mem_numbers_input hnumbers),
      ordinary_volumeValue (Layer.mem_numbers_output hnumbers), ordinary_optionalText _⟩
  have herror : ∀ d : Diagnostic, (errorValue d).Ordinary P := fun d => by
    refine ordinary_record ?_
    simp only [List.forall_mem_cons, List.not_mem_nil, false_imp_iff, implies_true, and_true]
    exact ⟨trivial, trivial, trivial, ordinary_optionalText _, ordinary_optionalText _⟩
  have hwarning : ∀ w : Warning, (warningValue w).Ordinary P := fun w => by
    refine ordinary_record ?_
    simp only [List.forall_mem_cons, List.not_mem_nil, false_imp_iff, implies_true, and_true]
    exact ⟨trivial, trivial, trivial, ordinary_optionalText _⟩
  refine ordinary_record ?_
  simp only [List.forall_mem_cons, List.not_mem_nil, false_imp_iff, implies_true, and_true]
  exact ⟨trivial, ordinary_optionalText _, trivial, ordinary_items (List.forall_mem_map.mpr hlayer),
    ordinary_items (List.forall_mem_map.mpr fun d _ => herror d),
    ordinary_items (List.forall_mem_map.mpr fun w _ => hwarning w)⟩

end Compilation

/-- What a compilation says is printed, unless a number of its network is too long. -/
theorem Command.failsLong_printed {r : Compilation} (h : ∀ net ∈ r.network, ∀ n ∈ net.numbers, P n) (p : Parsed)
    (s : Options.Source) : FailsLong P (Command.printed p s r) := by
  have htable : FailsLong P (Command.table s r) := by
    unfold Command.table
    split
    · rename_i net hnet
      split
      · exact (net.failsLong_dump (h net hnet)).map _
      · exact failsLong_ok _
    · exact failsLong_ok _
  have hresult : FailsLong P (Command.result p r) := by
    unfold Command.result
    split
    · exact ((Compilation.ordinary_report h).json_failsLong false 0).map _
    · exact failsLong_ok _
    · exact Compilation.failsLong_summary h
  exact htable.bind fun _ _ => hresult.bind fun _ _ => failsLong_ok _

end LayerLoops
