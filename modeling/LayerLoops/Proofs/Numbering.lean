import LayerLoops.Network
import Mathlib.Data.List.Basic

/-! # Numbers of layers

A layer of a network is known by its number, and a weighted layer also by its ordinal among the weighted ones. -/

namespace LayerLoops.Network

variable {l : Layer} {net : Network} {number : Nat}

theorem mem_numbered_iff : (l, number) ∈ net.numbered ↔ 0 < number ∧ net.layers[number - 1]? = some l := by
  rw [numbered, List.mk_mem_zipIdx_iff_le_and_getElem?_sub]
  exact Iff.rfl

theorem numbered_unique {m : Layer} (hl : (l, number) ∈ net.numbered) (hm : (m, number) ∈ net.numbered) : l = m :=
  Option.some.inj ((mem_numbered_iff.mp hl).2.symm.trans (mem_numbered_iff.mp hm).2)

theorem mem_numbered_dropLast (hl : (l, number) ∈ net.numbered) (hlt : number < net.layers.length) :
    (l, number) ∈ net.numbered.dropLast := by
  obtain ⟨hpos, hl⟩ := mem_numbered_iff.mp hl
  refine List.mem_of_getElem? (i := number - 1) ?_
  rw [List.getElem?_dropLast, numbered, List.length_zipIdx, if_pos (by omega), List.getElem?_zipIdx, hl,
    Option.map_some, Nat.add_sub_cancel' hpos]

theorem lt_of_mem_dropLast (h : (l, number) ∈ net.numbered.dropLast) : number < net.layers.length := by
  obtain ⟨k, hk⟩ := List.mem_iff_getElem?.mp h
  rw [List.getElem?_dropLast, numbered, List.length_zipIdx] at hk
  split at hk
  · rw [List.getElem?_zipIdx, Option.map_eq_some_iff] at hk
    obtain ⟨m, -, hm⟩ := hk
    have hnumber : 1 + k = number := congrArg Prod.snd hm
    omega
  · cases hk

theorem map_fst_numbered (net : Network) : net.numbered.map Prod.fst = net.layers :=
  List.zipIdx_map_fst 1 net.layers

theorem mem_layers (h : (l, number) ∈ net.numbered) : l ∈ net.layers := by
  rw [← net.map_fst_numbered]
  exact List.mem_map_of_mem h

theorem numbered_nodup (net : Network) : (net.numbered.map Prod.snd).Nodup := by
  rw [numbered, List.zipIdx_map_snd]
  exact List.nodup_range'

theorem weighted_nodup (net : Network) : (net.weighted.map Prod.snd).Nodup :=
  net.numbered_nodup.sublist (List.filter_sublist.map Prod.snd)

theorem length_weighted (net : Network) : net.weighted.length = (net.layers.filter Layer.weighted).length :=
  calc
    net.weighted.length = (net.weighted.map Prod.fst).length := (List.length_map Prod.fst).symm
    _ = ((net.numbered.map Prod.fst).filter Layer.weighted).length := by rw [List.filter_map]; rfl
    _ = (net.layers.filter Layer.weighted).length := by rw [net.map_fst_numbered]

/-- The ordinal of a weighted layer counts layers before it, so that it is an index of an array with one entry for
each weighted layer. -/
theorem ordinal_lt (h : (l, number) ∈ net.numbered) (hw : l.weighted = true) :
    net.ordinal number < net.weighted.length := by
  obtain ⟨hpos, hl⟩ := mem_numbered_iff.mp h
  obtain ⟨hlt, rfl⟩ := List.getElem?_eq_some_iff.mp hl
  have hsplit : net.layers = net.layers.take (number - 1) ++ net.layers[number - 1] :: net.layers.drop number := by
    conv_lhs => rw [← List.take_append_drop (number - 1) net.layers, List.drop_eq_getElem_cons hlt]
    rw [Nat.sub_add_cancel hpos]
  rw [length_weighted, ordinal]
  conv_rhs => rw [hsplit, List.filter_append, List.filter_cons_of_pos hw]
  simp

end LayerLoops.Network
