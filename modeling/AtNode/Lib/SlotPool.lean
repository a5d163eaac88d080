import Mathlib.Data.Finset.Basic
import Mathlib.Data.Finset.Card
import Mathlib.Data.List.Nodup

/-!
# A pool of slots and its owners

`slots` is the set of the slots that are taken, `owners` lists for every owner the slot it holds.
`Owned` says that each taken slot has exactly one owner and no owner holds a slot that is free. The
rules below follow a slot from its allocation through changes of hands to its release; a slot whose
owner disappears without releasing it is lost.
-/

namespace AtNode.SlotPool

variable {σ : Type*} {slots : Finset σ} {owners owners' : List σ} {i : σ}

structure Owned (slots : Finset σ) (owners : List σ) : Prop where
  once : owners.Nodup
  owned : ∀ i, i ∈ slots ↔ i ∈ owners

theorem Owned.empty : Owned (∅ : Finset σ) [] :=
  ⟨List.nodup_nil, fun i => iff_of_false (Finset.notMem_empty i) List.not_mem_nil⟩

theorem Owned.perm (h : Owned slots owners) (hp : owners.Perm owners') : Owned slots owners' :=
  ⟨hp.nodup h.once, fun i => (h.owned i).trans hp.mem_iff⟩

/-- Every slot that is taken has its owner, and no owner is left over. -/
theorem Owned.length_eq (h : Owned slots owners) : owners.length = slots.card := by
  classical
  rw [← List.toFinset_card_of_nodup h.once]
  congr 1
  ext i
  rw [List.mem_toFinset, h.owned i]

variable [DecidableEq σ]

theorem Owned.alloc (h : Owned slots owners) (hi : i ∉ slots) :
    Owned (insert i slots) (i :: owners) := by
  refine ⟨List.nodup_cons.mpr ⟨fun hm => hi ((h.owned i).mpr hm), h.once⟩, fun j => ?_⟩
  rw [Finset.mem_insert, List.mem_cons, h.owned j]

theorem Owned.free (h : Owned slots (i :: owners)) : Owned (slots.erase i) owners := by
  obtain ⟨hi, hnodup⟩ := List.nodup_cons.mp h.once
  refine ⟨hnodup, fun j => ?_⟩
  rw [Finset.mem_erase, h.owned j, List.mem_cons]
  constructor
  · rintro ⟨hne, rfl | hj⟩
    · exact absurd rfl hne
    · exact hj
  · intro hj
    exact ⟨fun he => hi (he ▸ hj), Or.inr hj⟩

omit [DecidableEq σ] in
/-- An owner that gives up its slot without a release leaves a slot without owner. -/
theorem Owned.lost (h : Owned slots (i :: owners)) : ¬ Owned slots owners := by
  intro h'
  have hi : i ∈ slots := (h.owned i).mpr List.mem_cons_self
  exact (List.nodup_cons.mp h.once).1 ((h'.owned i).mp hi)

end AtNode.SlotPool
