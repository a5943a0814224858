import LayerLoops.Proofs.Definitions
import LayerLoops.Proofs.Dependencies
import LayerLoops.Proofs.GeneratedFiles

/-! # The buffers of the host

The host keeps what it hands over as parameters in buffers of its own. The header that declares them and the generated
function take types and extents from the layers independently of each other, and agree on each of them. -/

namespace LayerLoops

open Code Text

namespace Code

/-- The name of the buffer of the host for a parameter. -/
def Buffer.host (b : Buffer) : String := b.text ++ "_src"

def hostNames (t : String) : List String := (words t).filter fun w => "_src".toList.isSuffixOf w.toList

def Line.host? : Line → Option Buffer
  | source d => some d.buffer
  | voidSource b => some b
  | _ => none

theorem host_injective {a b : Buffer} (h : a.host = b.host) : a = b :=
  Buffer.text_injective ((String.append_left_inj _).mp h)

/-! ## Names in a line -/

theorem hostNames_append_opens (a : String) {b : String} (h : opens b = true) :
    hostNames (a ++ b) = hostNames a ++ hostNames b := by
  rw [hostNames, words_append_of_opens a h, List.filter_append]
  rfl

theorem hostNames_append_closes {a : String} (h : closes a = true) (b : String) :
    hostNames (a ++ b) = hostNames a ++ hostNames b := by
  rw [hostNames, words_append_of_closes h, List.filter_append]
  rfl

theorem hostNames_host (b : Buffer) : hostNames b.host = [b.host] := by
  have hall : b.host.toList.all isWordChar = true :=
    all_wordChar_append (Symbol.all_wordChar (.buffer b)) (by decide)
  have hsuffix : "_src".toList.isSuffixOf b.host.toList = true := by
    rw [List.isSuffixOf_iff_suffix, Buffer.host, String.toList_append]
    exact List.suffix_append _ _
  rw [hostNames, words_eq_singleton (by simp [Buffer.host]) (List.all_eq_true.mp hall)]
  exact List.filter_cons_of_pos hsuffix

theorem hostNames_eq_nil {t : String} (h : 'c' ∉ t.toList) : hostNames t = [] := by
  rw [hostNames, List.filter_eq_nil_iff]
  intro w hw hsuffix
  rw [List.isSuffixOf_iff_suffix] at hsuffix
  exact h (mem_of_mem_words hw (hsuffix.subset (by decide)))

theorem not_mem_nat (n : Nat) : 'c' ∉ (toString n).toList := by
  rw [Nat.toString_eq_repr, Nat.toList_repr]
  exact fun h => absurd (isDigit_of_mem_toDigits h) (by decide)

theorem not_mem_append {a b : String} {c : Char} (ha : c ∉ a.toList) (hb : c ∉ b.toList) : c ∉ (a ++ b).toList := by
  rw [String.toList_append, List.mem_append, not_or]
  exact ⟨ha, hb⟩

theorem not_mem_dim (d : Option Int) : 'c' ∉ (dimText d).toList := by
  cases d with
  | none => decide
  | some n =>
    change 'c' ∉ (toString n).toList
    rw [Int.toString_eq_repr, Int.repr_eq_if]
    split
    · exact not_mem_nat n.toNat
    · exact not_mem_append (by decide) (not_mem_nat (-n).toNat)

theorem not_mem_dims (dims : List (Option Int)) : 'c' ∉ (dimsText dims).toList := by
  induction dims with
  | nil => decide
  | cons d dims ih =>
    rw [dimsText, List.map_cons, String.join_cons]
    exact not_mem_append (not_mem_append (not_mem_append (by decide) (not_mem_dim d)) (by decide)) ih

theorem not_mem_type (t : TypeName) : 'c' ∉ t.text.toList := by
  have hplace (p : Place) : 'c' ∉ p.text.toList := by
    cases p with
    | final => decide
    | inner n => exact not_mem_append (by decide) (not_mem_nat n)
  cases t with
  | result p => exact not_mem_append (by decide) (hplace p)
  | narrowResult p => exact not_mem_append (not_mem_append (by decide) (hplace p)) (by decide)
  | sum n => exact not_mem_append (by decide) (not_mem_nat n)
  | wide | narrow | relu | input | weights | biases | inputZeroPoint | outputZeroPoint | inputScale | outputScale
    | weightScale => decide

theorem hostNames_source (d : Declaration) : hostNames (Line.source d).text = [d.buffer.host] := by
  have htext : (Line.source d).text = d.type.text ++ " " ++ d.buffer.host ++ (dimsText d.dims ++ ";") := by
    change d.type.text ++ " " ++ d.buffer.text ++ "_src" ++ dimsText d.dims ++ ";" = _
    simp only [Buffer.host, String.append_assoc]
  have hopens : opens (dimsText d.dims ++ ";") = true := by
    by_cases hempty : dimsText d.dims = ""
    · rw [hempty]
      decide
    · exact opens_append hempty (mentions_dims (A := fun _ => True) d.dims).2 _
  rw [htext, hostNames_append_opens _ hopens, hostNames_append_closes (closes_append _ (by decide) (by decide)),
    hostNames_host, hostNames_eq_nil (not_mem_append (not_mem_type d.type) (by decide)),
    hostNames_eq_nil (not_mem_append (not_mem_dims d.dims) (by decide))]
  rfl

theorem hostNames_voidSource (b : Buffer) : hostNames (Line.voidSource b).text = [b.host] := by
  have htext : (Line.voidSource b).text = "void *" ++ b.host ++ ";" := by
    have hend : "_src;" = "_src" ++ ";" := rfl
    change "void *" ++ b.text ++ "_src;" = _
    rw [Buffer.host, hend, ← String.append_assoc, ← String.append_assoc]
  rw [htext, hostNames_append_opens _ (by decide), hostNames_append_closes (by decide), hostNames_host]
  rfl

/-! ## Lines that declare such buffers -/

def hosting (ts : List String) : List String := ts.filter fun t => !(hostNames t).isEmpty

def hostingOf (ps : List Piece) : List String := hosting (Instr.linesAllAt 0 (piecesInstrs ps))

theorem hosting_append (ts us : List String) : hosting (ts ++ us) = hosting ts ++ hosting us := List.filter_append ..

theorem hostingOf_append (ps qs : List Piece) : hostingOf (ps ++ qs) = hostingOf ps ++ hostingOf qs := by
  rw [hostingOf, piecesInstrs_append, Instr.linesAllAt_append, hosting_append]
  rfl

theorem hostingOf_flatten (pss : List (List Piece)) : hostingOf pss.flatten = pss.flatMap hostingOf := by
  induction pss with
  | nil => rfl
  | cons ps pss ih => rw [List.flatten_cons, hostingOf_append, ih, List.flatMap_cons]

theorem indent_zero (t : String) : indent 0 t = t := by
  unfold indent
  split
  · rename_i h
    exact (String.isEmpty_iff.mp h).symm
  · exact String.empty_append

theorem hosting_blank (n : Nat) : hostingOf [.blank n] = [] := by
  rw [hostingOf, hosting, List.filter_eq_nil_iff]
  intro t ht
  have hempty : t = "" := by
    simp only [piecesInstrs, Piece.instrs, Instr.linesAllAt, Instr.linesAt, List.append_nil] at ht
    exact List.eq_of_mem_replicate ht
  rw [hempty]
  decide

theorem hostingOf_line (l : Line) : hostingOf [.line l] = if (hostNames l.text).isEmpty then [] else [l.text] := by
  have hlines : Instr.linesAllAt 0 (piecesInstrs [.line l]) = [l.text] :=
    congrArg (fun t => [t]) (indent_zero l.text)
  rw [hostingOf, hlines, hosting, List.filter_singleton]
  cases (hostNames l.text).isEmpty <;> rfl

theorem hostingOf_plain {t : String} (h : hostNames t = []) : hostingOf (plainLines [t]) = [] :=
  (hostingOf_line (.plain t)).trans (if_pos (List.isEmpty_iff.mpr h))

theorem hostingOf_lines {ls : List Line} (h : ∀ l ∈ ls, l.host?.isSome = true) :
    hostingOf (ls.map .line) = ls.map Line.text := by
  induction ls with
  | nil => rfl
  | cons l ls ih =>
    obtain ⟨hl, hls⟩ := List.forall_mem_cons.mp h
    have hline : hostingOf [.line l] = [l.text] := by
      rw [hostingOf_line]
      cases l with
      | source d => rw [hostNames_source]; rfl
      | voidSource b => rw [hostNames_voidSource]; rfl
      | _ => cases hl
    rw [List.map_cons, ← List.singleton_append, hostingOf_append, hline, ih hls]
    rfl

theorem hostingOf_guarded {g : Guard} (ho : hostNames g.opening = []) (hc : hostNames g.closing = [])
    (body : List Piece) : hostingOf [.guarded g body] = hostingOf body := by
  have hlines : Instr.linesAllAt 0 (piecesInstrs [.guarded g body]) =
      [g.opening] ++ Instr.linesAllAt 0 (piecesInstrs body) ++ [g.closing] := by
    simp only [piecesInstrs, Piece.instrs, List.append_nil, List.cons_append, Instr.linesAllAt, Instr.linesAt,
      Instr.linesAllAt_append, indent_zero, List.nil_append]
  have hline {t : String} (h : hostNames t = []) : hosting [t] = [] := by
    rw [hosting, List.filter_singleton, h]
    rfl
  rw [hostingOf, hlines, hosting_append, hosting_append, hline ho, hline hc, List.nil_append, List.append_nil]
  rfl

end Code

/-! ## The header -/

namespace ParamList

variable {l : Layer} {n : Nat} {quantized : Bool} {x : Line}

open Forward (factorTypes)

variable {net : Network} {c : Config}

def factorLines (net : Network) : List Line :=
  factorTypes.map fun (t, b) => .source ⟨t, b, [some (Int.ofNat net.weighted.length)]⟩

theorem factors_eq (net : Network) : factors net = (factorLines net).map .line ++ [Piece.blank 1] := rfl

def hostsOf (quantized : Bool) (n : Nat) : List Buffer :=
  [Buffer.weights n, .biases n] ++ if quantized then [Buffer.weightScales n] else []

theorem hostsOf_subset (quantized : Bool) (n : Nat) :
    hostsOf quantized n ⊆ [.weights n, .biases n, .weightScales n] := by
  cases quantized <;> simp [hostsOf]

theorem sources_hosts {ls : List Line} (h : sources l n quantized = .ok ls) :
    ls.map Line.host? = (hostsOf quantized n).map some := by
  unfold sources at h
  split at h
  · simp only [bind_eq_ok, pure_eq_ok] at h
    obtain ⟨weights, -, channels, -, rfl⟩ := h
    cases quantized <;> rfl
  · cases h
    cases quantized <;> rfl

theorem layerPieces_hosting {ps : List Piece} (h : layerPieces l n quantized = .ok ps) :
    ∃ ls, sources l n quantized = .ok ls ∧ hostingOf ps = ls.map Line.text := by
  simp only [layerPieces, bind_eq_ok, pure_eq_ok] at h
  obtain ⟨ls, hls, rfl⟩ := h
  have hkind : hostNames ("//" ++ l.kind.label) = [] := by cases l.kind <;> decide +kernel
  have hsome : ∀ x ∈ ls, x.host?.isSome = true := by
    intro x hx
    have hmem := List.mem_map_of_mem (f := Line.host?) hx
    rw [sources_hosts hls] at hmem
    obtain ⟨b, -, hb⟩ := List.mem_map.mp hmem
    rw [← hb]
    rfl
  refine ⟨ls, hls, ?_⟩
  rw [hostingOf_append, hostingOf_append, hostingOf_plain hkind, hostingOf_lines hsome, hosting_blank, List.nil_append,
    List.append_nil]

def hostLines (net : Network) (c : Config) : Except Fault (List Line) :=
  if c.mainFunction then do
    let own ← net.numbered.mapM fun (l, n) => sources l n c.quantized
    pure ((if c.quantized then factorLines net else []) ++ own.flatten)
  else pure []

theorem hostingOf_factors (net : Network) (quantized : Bool) :
    hostingOf (if quantized then factors net else []) = (if quantized then factorLines net else []).map Line.text := by
  have hsome : ∀ x ∈ factorLines net, x.host?.isSome = true := List.forall_mem_map.mpr fun _ _ => rfl
  cases quantized with
  | false => rfl
  | true =>
    rw [if_pos rfl, if_pos rfl, factors_eq, hostingOf_append, hostingOf_lines hsome, hosting_blank, List.append_nil]

theorem layers_hosting {xs : List (Layer × Nat)} {layers : List (List Piece)}
    (h : (xs.mapM fun (l, n) => layerPieces l n quantized) = .ok layers) :
    ∃ own, (xs.mapM fun (l, n) => sources l n quantized) = .ok own ∧
      hostingOf layers.flatten = own.flatten.map Line.text := by
  rw [hostingOf_flatten]
  simp only [mapM_eq_ok] at h ⊢
  induction h with
  | nil => exact ⟨[], .nil, rfl⟩
  | cons hps _ ih =>
    obtain ⟨ls, hls, htexts⟩ := layerPieces_hosting hps
    obtain ⟨own, hown, hmore⟩ := ih
    refine ⟨ls :: own, .cons hls hown, ?_⟩
    rw [List.flatMap_cons, htexts, hmore, List.flatten_cons, List.map_append]

theorem pieces_hosting {ps : List Piece} (h : pieces net c = .ok ps) :
    ∃ ls, hostLines net c = .ok ls ∧ hostingOf ps = ls.map Line.text := by
  obtain ⟨simulated, rfl, hsimulated⟩ := pieces_eq_ok h
  have hfront : hostingOf [.guarded { name := "_PARAM_LIST_H", endNamed := true }
      (plainLines ["#define _PARAM_LIST_H"] ++ [Piece.blank 1] ++ plainLines ["#include \"data-types.h\""] ++
        [Piece.blank 1] ++ simulated)] = hostingOf simulated := by
    rw [hostingOf_guarded (by decide +kernel) (by decide +kernel)]
    simp only [hostingOf_append, hosting_blank, hostingOf_plain (t := "#define _PARAM_LIST_H") (by decide +kernel),
      hostingOf_plain (t := "#include \"data-types.h\"") (by decide +kernel), List.nil_append]
  rw [hfront]
  rcases hsimulated with ⟨hmain, rfl⟩ | ⟨hmain, layers, hlayers, rfl⟩
  · exact ⟨[], by rw [hostLines, hmain]; rfl, rfl⟩
  · obtain ⟨own, hown, htexts⟩ := layers_hosting hlayers
    refine ⟨(if c.quantized then factorLines net else []) ++ own.flatten, ?_, ?_⟩
    · rw [hostLines, if_pos hmain, hown]
      rfl
    · rw [← List.singleton_append, hostingOf_append, hostingOf_guarded (by decide +kernel) (by decide +kernel),
        hosting_blank, hostingOf_append, hostingOf_factors, htexts, List.append_nil, List.map_append]

theorem text_hosting {params : String} (h : text net c = .ok params) :
    ∃ ls, hostLines net c = .ok ls ∧ hosting (fileLines params) = ls.map Line.text := by
  simp only [text, bind_eq_ok, pure_eq_ok] at h
  obtain ⟨ps, hps, rfl⟩ := h
  obtain ⟨ls, hls, htexts⟩ := pieces_hosting hps
  have hsound := Piece.sound_all ps (pieces_tidy hps) 0
  have hne : Instr.linesAllAt 0 (piecesInstrs ps) ≠ [] := by
    obtain ⟨simulated, rfl, -⟩ := pieces_eq_ok hps
    simp [piecesInstrs, Piece.instrs, Instr.linesAllAt, Instr.linesAt]
  have hempty : hosting [""] = [] := by decide
  refine ⟨ls, hls, ?_⟩
  rw [fileLines_render (piecesInstrs_steady ps) hne hsound.lines, hosting_append, hempty, List.append_nil]
  exact htexts

def hosts (net : Network) (quantized : Bool) : List Buffer :=
  (if quantized then Site.factorBuffers else []) ++ (net.numbered.map Prod.snd).flatMap (hostsOf quantized)

theorem hosts_nodup (net : Network) (quantized : Bool) : (hosts net quantized).Nodup := by
  have hfactors : (if quantized then Site.factorBuffers else []).Nodup := by cases quantized <;> decide
  have hown : ∀ n ∈ net.numbered.map Prod.snd, (hostsOf quantized n).Nodup := by
    intro n _
    cases quantized <;> simp [hostsOf]
  have hapart : (net.numbered.map Prod.snd).Pairwise fun m n =>
      (hostsOf quantized m).Disjoint (hostsOf quantized n) := by
    refine net.numbered_nodup.imp fun {m n} hne => ?_
    rw [List.disjoint_left]
    cases quantized <;> simp [hostsOf, hne]
  have hshared : (if quantized then Site.factorBuffers else []).Disjoint
      ((net.numbered.map Prod.snd).flatMap (hostsOf quantized)) := by
    rw [List.disjoint_left]
    intro b hb hmem
    obtain ⟨n, -, hn⟩ := List.mem_flatMap.mp hmem
    cases quantized with
    | false => cases hb
    | true =>
      simp only [hostsOf, if_true, List.cons_append, List.nil_append, List.mem_cons, List.not_mem_nil, or_false] at hn
      rcases hn with rfl | rfl | rfl <;> simp [Site.factorBuffers] at hb
  exact List.nodup_append'.mpr ⟨hfactors, List.nodup_flatMap.mpr ⟨hown, hapart⟩, hshared⟩

theorem hostLines_hosts {ls : List Line} (h : hostLines net c = .ok ls) (hmain : c.mainFunction = true) :
    ls.map Line.host? = (hosts net c.quantized).map some := by
  rw [hostLines, if_pos hmain] at h
  simp only [bind_eq_ok, pure_eq_ok] at h
  obtain ⟨own, hown, rfl⟩ := h
  have hfactors : (if c.quantized then factorLines net else []).map Line.host? =
      (if c.quantized then Site.factorBuffers else []).map some := by
    cases c.quantized <;> rfl
  have hlayers : own.flatten.map Line.host? =
      ((net.numbered.map Prod.snd).flatMap (hostsOf c.quantized)).map some := by
    rw [mapM_eq_ok] at hown
    generalize net.numbered = xs at hown
    induction hown with
    | nil => rfl
    | cons hls _ ih =>
      rw [List.flatten_cons, List.map_append, sources_hosts hls, ih, List.map_cons, List.flatMap_cons, List.map_append]
  rw [List.map_append, hfactors, hlayers, hosts, List.map_append]

theorem hostNames_of_host? {b : Buffer} (h : x.host? = some b) : hostNames x.text = [b.host] := by
  cases x with
  | source d =>
    cases h
    exact hostNames_source d
  | voidSource b' =>
    cases h
    exact hostNames_voidSource b
  | _ => cases h

theorem filter_host {params : String} {ls : List Line} (hls : hostLines net c = .ok ls)
    (hmain : c.mainFunction = true) (htexts : hosting (fileLines params) = ls.map Line.text) (hx : x ∈ ls)
    {b : Buffer} (hb : x.host? = some b) : (fileLines params).filter (fun t => b.host ∈ words t) = [x.text] := by
  have hhosts := hostLines_hosts hls hmain
  have hnodup : (ls.map Line.host?).Nodup := by
    rw [hhosts]
    exact (hosts_nodup net c.quantized).map (Option.some_injective _)
  have hnames (t : String) : b.host ∈ words t ↔ b.host ∈ hostNames t := by
    have hself : b.host ∈ hostNames b.host := by rw [hostNames_host]; exact List.mem_singleton_self _
    rw [hostNames, List.mem_filter]
    exact (and_iff_left (List.mem_filter.mp hself).2).symm
  have hdeclares : ∀ y ∈ ls, decide (b.host ∈ words y.text) = (y.host? == x.host?) := by
    intro y hy
    have hmem := List.mem_map_of_mem (f := Line.host?) hy
    rw [hhosts] at hmem
    obtain ⟨b', -, hb'⟩ := List.mem_map.mp hmem
    rw [Bool.eq_iff_iff, decide_eq_true_iff, beq_iff_eq, hnames, hostNames_of_host? hb'.symm, ← hb', hb,
      List.mem_singleton, Option.some.injEq]
    exact ⟨fun h => (host_injective h).symm, fun h => congrArg Buffer.host h.symm⟩
  calc
    (fileLines params).filter (fun t => b.host ∈ words t) =
        (hosting (fileLines params)).filter (fun t => b.host ∈ words t) := by
      rw [hosting, List.filter_filter]
      refine List.filter_congr fun t _ => ?_
      by_cases ht : b.host ∈ words t
      · have hsome := List.ne_nil_of_mem ((hnames t).mp ht)
        simp [ht, hsome]
      · simp [ht]
    _ = (ls.filter fun y => y.host? == x.host?).map Line.text := by
      rw [htexts, List.filter_map]
      exact congrArg (List.map Line.text) (List.filter_congr hdeclares)
    _ = [x.text] := by
      rw [filter_eq_singleton hx (List.nodup_iff_count_le_one.mp hnodup _)]
      rfl

/-! ## Parameters and their buffers -/

theorem mem_hostLines {ls : List Line} (h : hostLines net c = .ok ls) (hmain : c.mainFunction = true) :
    x ∈ ls ↔ c.quantized = true ∧ x ∈ factorLines net ∨
      ∃ l n own, (l, n) ∈ net.numbered ∧ sources l n c.quantized = .ok own ∧ x ∈ own := by
  rw [hostLines, if_pos hmain] at h
  simp only [bind_eq_ok, pure_eq_ok] at h
  obtain ⟨own, hown, rfl⟩ := h
  have hfactors : x ∈ (if c.quantized then factorLines net else []) ↔ c.quantized = true ∧ x ∈ factorLines net := by
    cases c.quantized <;> simp
  rw [List.mem_append, hfactors, List.mem_flatten]
  refine or_congr_right ⟨?_, ?_⟩
  · rintro ⟨ls, hls, hx⟩
    obtain ⟨⟨l, n⟩, hmem, hsources⟩ := exists_mem_of_mapM hown hls
    exact ⟨l, n, ls, hmem, hsources, hx⟩
  · rintro ⟨l, n, ls, hmem, hsources, hx⟩
    obtain ⟨ls', hls', hsources'⟩ := exists_ok_of_mapM hown hmem
    cases hsources.symm.trans hsources'
    exact ⟨ls, hls', hx⟩

theorem mem_sources_iff {own : List Line} (h : sources l n quantized = .ok own) : x ∈ own ↔
      (∃ dims, l.weighted = true ∧ l.weightDims = .ok dims ∧ x = .source ⟨.weights, .weights n, dims⟩) ∨
      (∃ d, l.weighted = true ∧ l.channelDim = .ok d ∧ x = .source ⟨.biases, .biases n, [d]⟩) ∨
      (∃ d, l.weighted = true ∧ quantized = true ∧ l.channelDim = .ok d ∧
        x = .source ⟨.weightScale, .weightScales n, [d]⟩) ∨
      l.weighted = false ∧ ∃ b ∈ hostsOf quantized n, x = .voidSource b := by
  unfold sources at h
  split at h
  · rename_i hw
    simp only [bind_eq_ok, pure_eq_ok] at h
    obtain ⟨weights, hweights, channels, hchannels, rfl⟩ := h
    simp only [hw, hweights, hchannels, Except.ok.injEq]
    cases quantized <;> simp
  · rename_i hw
    cases h
    simp only [hw, hostsOf]
    cases quantized <;> simp

section Declared

variable {orders : List LoopOrder} {profile : String} {ls : List Line} (h : hostLines net c = .ok ls)
  (hmain : c.mainFunction = true)
include h hmain

theorem exists_sources {l : Layer} {n : Nat} (hmem : (l, n) ∈ net.weighted) :
    l.weighted = true ∧ (l, n) ∈ net.numbered ∧ ∃ own, sources l n c.quantized = .ok own := by
  obtain ⟨hnumbered, hw⟩ := List.mem_filter.mp hmem
  rw [hostLines, if_pos hmain] at h
  simp only [bind_eq_ok, pure_eq_ok] at h
  obtain ⟨_, hown, -⟩ := h
  obtain ⟨own, -, hsources⟩ := exists_ok_of_mapM hown hnumbered
  exact ⟨hw, hnumbered, own, hsources⟩

theorem source_mem_hostLines {d : Declaration} {active : Bool} (hd : Forward.Signature net c orders profile d active)
    (hrole : d.buffer.role = .parameter) : .source d ∈ ls := by
  rw [mem_hostLines h hmain]
  cases hd with
  | factor hq _ ht => exact .inl ⟨hq, List.mem_map.mpr ⟨_, ht, rfl⟩⟩
  | scales hq hl hd =>
    obtain ⟨hw, hnumbered, own, hown⟩ := exists_sources h hmain hl
    exact .inr ⟨_, _, own, hnumbered, hown, (mem_sources_iff hown).mpr (.inr (.inr (.inl ⟨_, hw, hq, hd, rfl⟩)))⟩
  | weights hl hd =>
    obtain ⟨hw, hnumbered, own, hown⟩ := exists_sources h hmain hl
    exact .inr ⟨_, _, own, hnumbered, hown, (mem_sources_iff hown).mpr (.inl ⟨_, hw, hd, rfl⟩)⟩
  | biases _ hl hd =>
    obtain ⟨hw, hnumbered, own, hown⟩ := exists_sources h hmain hl
    exact .inr ⟨_, _, own, hnumbered, hown, (mem_sources_iff hown).mpr (.inr (.inl ⟨_, hw, hd, rfl⟩))⟩
  | between => cases hrole

/-- What a line that declares a buffer of the host declares it for. -/
inductive Purpose (net : Network) (c : Config) (orders : List LoopOrder) (profile : String) : Line → Prop
  | parameter {d : Declaration} {active : Bool} : Forward.Signature net c orders profile d active →
      d.buffer.role = .parameter → Purpose net c orders profile (.source d)
  | weightless {l : Layer} {n : Nat} {b : Buffer} : (l, n) ∈ net.numbered → l.weighted = false →
      b ∈ hostsOf c.quantized n → Purpose net c orders profile (.voidSource b)
  | unbiased {d : Declaration} {n : Nat} : d.buffer = .biases n → c.biases = false →
      Purpose net c orders profile (.source d)
  | unshared {x : Line} : c.quantized = true → net.weighted = [] → x ∈ factorLines net →
      Purpose net c orders profile x

theorem purpose_of_mem {x : Line} (hx : x ∈ ls) : Purpose net c orders profile x := by
  rcases (mem_hostLines h hmain).mp hx with ⟨hq, hx⟩ | ⟨l, n, own, hmem, hown, hx⟩
  · by_cases hnone : net.weighted = []
    · exact .unshared hq hnone hx
    · obtain ⟨⟨t, b⟩, ht, rfl⟩ := List.mem_map.mp hx
      exact .parameter (.factor hq hnone ht) (Forward.factor_role ht)
  · have hweighted (hw : l.weighted = true) : (l, n) ∈ net.weighted := List.mem_filter.mpr ⟨hmem, hw⟩
    rcases (mem_sources_iff hown).mp hx with
      ⟨dims, hw, hd, rfl⟩ | ⟨d, hw, hd, rfl⟩ | ⟨d, hw, hq, hd, rfl⟩ | ⟨hw, b, hb, rfl⟩
    · exact .parameter (.weights (hweighted hw) hd) rfl
    · cases hb : c.biases with
      | true => exact .parameter (.biases hb (hweighted hw) hd) rfl
      | false => exact .unbiased rfl hb
    · exact .parameter (.scales hq (hweighted hw) hd) rfl
    · exact .weightless hmem hw hb

end Declared

section Header

variable {orders : List LoopOrder} {profile : String} {params : String} (h : text net c = .ok params)
  (hmain : c.mainFunction = true)
include h hmain

theorem filter_host_parameter {d : Declaration} {active : Bool} (hd : Forward.Signature net c orders profile d active)
    (hrole : d.buffer.role = .parameter) :
    (fileLines params).filter (fun t => d.buffer.host ∈ words t) = [(Line.source d).text] := by
  obtain ⟨ls, hls, htexts⟩ := text_hosting h
  exact filter_host hls hmain htexts (source_mem_hostLines hls hmain hd hrole) rfl

theorem filter_host_factor (hq : c.quantized = true) {t : TypeName} {b : Buffer} (ht : (t, b) ∈ Forward.factorTypes) :
    (fileLines params).filter (fun line => b.host ∈ words line) =
      [(Line.source ⟨t, b, [some (Int.ofNat net.weighted.length)]⟩).text] := by
  obtain ⟨ls, hls, htexts⟩ := text_hosting h
  have hline := (mem_hostLines hls hmain).mpr (.inl ⟨hq, List.mem_map.mpr ⟨_, ht, rfl⟩⟩)
  exact filter_host hls hmain htexts hline rfl

theorem purpose_of_hostName (orders : List LoopOrder) (profile : String) {t w : String} (ht : t ∈ fileLines params)
    (hw : w ∈ words t) (hsuffix : "_src".toList <:+ w.toList) :
    ∃ x b, Line.host? x = some b ∧ w = b.host ∧ Purpose net c orders profile x := by
  obtain ⟨ls, hls, htexts⟩ := text_hosting h
  have hname : w ∈ hostNames t := List.mem_filter.mpr ⟨hw, List.isSuffixOf_iff_suffix.mpr hsuffix⟩
  have hline : t ∈ hosting (fileLines params) := by
    rw [hosting, List.mem_filter]
    exact ⟨ht, by simp [List.ne_nil_of_mem hname]⟩
  rw [htexts] at hline
  obtain ⟨x, hx, rfl⟩ := List.mem_map.mp hline
  have hhost := List.mem_map_of_mem (f := Line.host?) hx
  rw [hostLines_hosts hls hmain] at hhost
  obtain ⟨b, -, hb⟩ := List.mem_map.mp hhost
  rw [hostNames_of_host? hb.symm, List.mem_singleton] at hname
  exact ⟨x, b, hb.symm, hname, purpose_of_mem hls hmain hx⟩

end Header

end ParamList

namespace Forward.Signature

variable {net : Network} {c : Config} {orders : List LoopOrder} {profile : String} {d : Declaration} {active : Bool}
  (h : Forward.Signature net c orders profile d active)
include h

theorem active_of_whole (hwhole : c.isolated = false) (hrole : d.buffer.role = .parameter) : active = true := by
  cases h with
  | factor | scales => rfl
  | weights | biases => rw [hwhole]; rfl
  | between => cases hrole

theorem not_factor (hnone : net.weighted = []) : d.buffer ∉ Site.factorBuffers := by
  cases h with
  | factor _ hsome => exact absurd hnone hsome
  | scales | weights | biases | between => simp [Site.factorBuffers]

end Forward.Signature

open Forward ParamList in
/-- In a program with a main function, each parameter for weights, biases, weight scales or factors has exactly one
buffer of the host, and its line gives the same type and extents. The other buffers belong to layers without weights, or
hold biases that are not used, or, in a network without weighted layers, hold the factors that weighted layers would
share. In such a network the latter are declared under quantization although no parameter takes them. -/
theorem parameters_have_host_buffers {c : Config} {file : Option String} {doc : Step Source.Document} {prior : Journal}
    {r : Compilation} (h : compile c file doc true prior = .ok r) (hs : r.success = true)
    (hmain : c.mainFunction = true) (hwhole : c.isolated = false) :
    ∃ net p src, r.network = some net ∧ net.program r.config r.orders r.profile = .ok p ∧ r.sources = some src ∧
      src.main = p.text ∧
      (∀ d active, (d, active) ∈ p.signature → d.buffer.role = .parameter → active = true ∧
        (fileLines src.paramList).filter (fun t => d.buffer.host ∈ words t) =
          [d.type.text ++ " " ++ d.buffer.text ++ "_src" ++ dimsText d.dims ++ ";"]) ∧
      (∀ t ∈ fileLines src.paramList, ∀ w ∈ words t, "_src".toList <:+ w.toList → ∃ b : Buffer, w = b.host ∧
        ((∃ d active, (d, active) ∈ p.signature ∧ d.buffer.role = .parameter ∧ d.buffer = b) ∨
          (∃ l n, (l, n) ∈ net.numbered ∧ l.weighted = false ∧ b ∈ [.weights n, .biases n, .weightScales n]) ∨
          (∃ n, b = .biases n ∧ r.config.biases = false) ∨ b ∈ Site.factorBuffers ∧ net.weighted = [])) ∧
      (r.config.quantized = true → net.weighted = [] → ∀ t b, (t, b) ∈ factorTypes →
        (fileLines src.paramList).filter (fun line => b.host ∈ words line) =
          [t.text ++ " " ++ b.text ++ "_src" ++ "[0]" ++ ";"] ∧
        ∀ d active, (d, active) ∈ p.signature → d.buffer ≠ b) := by
  obtain ⟨_, net, -, -, -, ha⟩ := compile_accepts h hs
  generalize net.infer.1 = net at ha
  obtain ⟨src, hsrc, hgen⟩ : ∃ src, r.sources = some src ∧ _ := ha.sources
  obtain ⟨p, params, hp, hparams, rfl⟩ := Compilation.generate_eq_ok.mp hgen
  have hadapts := compile_adapts h
  have hmain : r.config.mainFunction = true := hadapts.mainFunction.trans hmain
  have hwhole : r.config.isolated = false := by rw [Config.isolated, hadapts.singleLayer]; exact hwhole
  refine ⟨net, p, _, ha.network, hp, hsrc, rfl, fun d active hd hrole => ?_, fun t ht w hw hsuffix => ?_, ?_⟩
  · have hd := (Network.mem_signature_iff hp).mp hd
    exact ⟨hd.active_of_whole hwhole hrole, filter_host_parameter hparams hmain hd hrole⟩
  · obtain ⟨x, b, hb, rfl, hpurpose⟩ := purpose_of_hostName hparams hmain r.orders r.profile ht hw hsuffix
    refine ⟨b, rfl, ?_⟩
    cases hpurpose with
    | parameter hd hrole =>
      cases hb
      exact .inl ⟨_, _, (Network.mem_signature_iff hp).mpr hd, hrole, rfl⟩
    | weightless hmem hl hn =>
      cases hb
      exact .inr (.inl ⟨_, _, hmem, hl, hostsOf_subset _ _ hn⟩)
    | unbiased hd hoff =>
      cases hb
      exact .inr (.inr (.inl ⟨_, hd, hoff⟩))
    | unshared hq hnone hx =>
      obtain ⟨⟨t, b'⟩, ht, rfl⟩ := List.mem_map.mp hx
      cases hb
      exact .inr (.inr (.inr ⟨mem_factorBuffers ht, hnone⟩))
  · intro hq hnone t b ht
    have hline := filter_host_factor hparams hmain hq ht
    rw [hnone] at hline
    refine ⟨hline, ?_⟩
    rintro d active hd rfl
    exact ((Network.mem_signature_iff hp).mp hd).not_factor hnone (mem_factorBuffers ht)

/-- Quantized, in single fixed-point mode and with a main function. -/
def quantizedHost : Config := { dataMode := .fixedSingle, dataDetail := "eight-bit-int", mainFunction := true }

open Forward in
theorem parameters_have_host_buffers_pooled : ∃ r net p src,
    compile quantizedHost none (Source.Document.ofLines none pooledLines) true = .ok r ∧ r.success = true ∧
      r.network = some net ∧ net.program r.config r.orders r.profile = .ok p ∧ r.sources = some src ∧
      (⟨.weights, .weights 4, [some 8, some 3]⟩, true) ∈ p.signature ∧
      (fileLines src.paramList).filter (fun t => "weights_4_src" ∈ words t) =
        ["DataType_weights weights_4_src[8][3];"] := by
  have hrun : compiledOutline quantizedHost (Source.Document.ofLines none pooledLines) = some [
      (.conv, some ⟨6, 6, 1⟩, some ⟨4, 4, 2⟩), (.pooling, some ⟨4, 4, 2⟩, some ⟨2, 2, 2⟩),
      (.flatten, some ⟨2, 2, 2⟩, some (.flat 8)), (.dense, some (.flat 8), some (.flat 3))] := by
    decide +kernel
  obtain ⟨r, net, hr, hs, hnet, houtline⟩ := exists_of_compiledOutline hrun
  obtain ⟨net', p, src, hnet', hp, hsrc, -, hparameters, -⟩ := parameters_have_host_buffers hr hs rfl rfl
  cases hnet.symm.trans hnet'
  obtain ⟨_, _, -, -, -, ha⟩ := compile_accepts hr hs
  have hwhole : r.config.isolated = false := by rw [Config.isolated, ha.single]; rfl
  obtain ⟨l, hl, hkind, hinput, houtput⟩ := Network.exists_of_outline houtline (k := 3) rfl
  have hweighted : (l, 4) ∈ net.weighted := List.mem_filter.mpr ⟨hl, by rw [Layer.weighted, hkind]; rfl⟩
  have hdims : l.weightDims = .ok [some 8, some 3] := by
    cases hform : l.form with
    | dense nodes =>
      refine (Layer.weightDims_dense hform hinput houtput).mpr ⟨rfl, ?_⟩
      simpa using ⟨Decimal.fits_of_lt_thousand (by decide), Decimal.fits_of_lt_thousand (by decide)⟩
    | conv | pooling | flatten => simp [Layer.kind, hform, Form.kind] at hkind
  have hd : Signature net r.config r.orders r.profile ⟨.weights, .weights 4, [some 8, some 3]⟩ _ :=
    .weights hweighted hdims
  have hmem := (Network.mem_signature_iff hp).mpr hd
  obtain ⟨hactive, hline⟩ := hparameters _ _ hmem rfl
  exact ⟨r, net, p, src, hr, hs, hnet, hp, hsrc, hactive ▸ hmem, hline⟩

def flattenLines : List String := ["model.add(Flatten(input_shape=(2, 2, 1)))"]

/-- The host has a buffer for factors that no parameter takes, since no layer has weights. -/
theorem weightless_network_hosts_factors : ∃ r net p src,
    compile quantizedHost none (Source.Document.ofLines none flattenLines) true = .ok r ∧ r.success = true ∧
      r.network = some net ∧ net.program r.config r.orders r.profile = .ok p ∧ r.sources = some src ∧
      "DataType_IZP input_zero_points_src[0];" ∈ fileLines src.paramList ∧
      ∀ d active, (d, active) ∈ p.signature → d.buffer ≠ .inputZeroPoints := by
  have hrun : compiledOutline quantizedHost (Source.Document.ofLines none flattenLines) = some [
      (.flatten, some ⟨2, 2, 1⟩, some (.flat 4))] := by
    decide +kernel
  have hkept : compiledConfig quantizedHost (Source.Document.ofLines none flattenLines) = some quantizedHost := by
    decide +kernel
  obtain ⟨r, net, hr, hs, hnet, houtline⟩ := exists_of_compiledOutline hrun
  obtain ⟨r', hr', -, hconfig⟩ := exists_of_compiledConfig hkept
  cases hr.symm.trans hr'
  obtain ⟨_, declared, -, -, -, ha⟩ := compile_accepts hr hs
  cases hnet.symm.trans ha.network
  obtain ⟨src, hsrc, hgen⟩ : ∃ src, r.sources = some src ∧ _ := ha.sources
  obtain ⟨p, params, hp, hparams, rfl⟩ := Compilation.generate_eq_ok.mp hgen
  have hnone : declared.infer.1.weighted = [] := by
    refine List.filter_eq_nil_iff.mpr fun ⟨l, n⟩ hl => ?_
    have hlayer := List.mem_map_of_mem (f := fun l => (l.kind, l.input, l.output)) (Network.mem_layers hl)
    rw [← Network.outline, houtline, List.mem_singleton, Prod.mk.injEq] at hlayer
    simp [Layer.weighted, hlayer.1, Kind.weighted]
  have hmain : r.config.mainFunction = true := by rw [hconfig]; rfl
  have hq : r.config.quantized = true := by rw [hconfig]; decide
  have hline := ParamList.filter_host_factor hparams hmain hq (t := .inputZeroPoint)
    (b := .inputZeroPoints) (by decide)
  rw [hnone] at hline
  refine ⟨r, _, p, _, hr, hs, hnet, hp, hsrc, ?_, ?_⟩
  · exact List.mem_of_mem_filter (hline ▸ List.mem_singleton_self _)
  · intro d active hd hbuffer
    exact ((Network.mem_signature_iff hp).mp hd).not_factor hnone (hbuffer ▸ by decide)

end LayerLoops
