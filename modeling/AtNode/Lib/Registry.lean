import Mathlib.Data.List.Basic
import Mathlib.Logic.Function.Basic

/-!
# A registry of keys in slots

A map gives every slot a key or the blank key. `Vacant` is the test by which a slot is taken for
free; it may be met by keys other than the blank one. `Book` relates the map to the list of the keys
that were recorded and not erased: as long as no recorded key passes the test and no key is recorded
again while it is in the map, each key has one slot and keeps it.
-/

namespace AtNode.Registry

variable {σ α : Type*} {Vacant : α → Prop} {blank : α} {m : σ → α} {bound : List (σ × α)}

structure Book (Vacant : α → Prop) (blank : α) (m : σ → α) (bound : List (σ × α)) : Prop where
  kept : ∀ p ∈ bound, m p.1 = p.2
  taken : ∀ p ∈ bound, ¬ Vacant p.2
  known : ∀ s, m s ≠ blank → (s, m s) ∈ bound
  inj : ∀ p ∈ bound, ∀ q ∈ bound, p.2 = q.2 → p.1 = q.1

theorem Book.nil (h : ∀ s, m s = blank) : Book Vacant blank m [] :=
  ⟨fun _ hp => absurd hp List.not_mem_nil, fun _ hp => absurd hp List.not_mem_nil,
    fun s hs => absurd (h s) hs, fun _ hp => absurd hp List.not_mem_nil⟩

theorem Book.blank_of_vacant (h : Book Vacant blank m bound) {s : σ} (hs : Vacant (m s)) :
    m s = blank := by
  by_contra hne
  exact h.taken _ (h.known s hne) hs

/-- No key is in two slots. -/
theorem Book.once (h : Book Vacant blank m bound) {s t : σ} (he : m s = m t) (hs : m s ≠ blank) :
    s = t :=
  h.inj _ (h.known s hs) _ (h.known t (by rwa [← he])) he

/-- The slot of a recorded key is the only one with that key. -/
theorem Book.slot_eq (h : Book Vacant blank m bound) {p : σ × α} (hp : p ∈ bound) {s : σ}
    (hb : m s ≠ blank) (hs : m s = p.2) : s = p.1 :=
  h.inj _ (h.known s hb) _ hp hs

variable [DecidableEq σ]

theorem Book.record (h : Book Vacant blank m bound) {s : σ} {a : α} (hs : Vacant (m s))
    (ha : ¬ Vacant a) (hnew : ∀ t, m t ≠ a) :
    Book Vacant blank (Function.update m s a) ((s, a) :: bound) := by
  have hfree : ∀ p ∈ bound, p.1 ≠ s := by
    rintro p hp rfl
    rw [h.kept p hp] at hs
    exact h.taken p hp hs
  have hother : ∀ p ∈ bound, p.2 ≠ a := by
    intro p hp he
    exact hnew p.1 ((h.kept p hp).trans he)
  refine ⟨?_, ?_, ?_, ?_⟩
  · intro p hp
    rcases List.mem_cons.mp hp with rfl | hp
    · exact Function.update_self _ _ _
    · rw [Function.update_of_ne (hfree p hp)]
      exact h.kept p hp
  · intro p hp
    rcases List.mem_cons.mp hp with rfl | hp
    · exact ha
    · exact h.taken p hp
  · intro t ht
    by_cases hts : t = s
    · rw [hts, Function.update_self]
      exact List.mem_cons_self
    · rw [Function.update_of_ne hts] at ht ⊢
      exact List.mem_cons_of_mem _ (h.known t ht)
  · intro p hp q hq he
    rcases List.mem_cons.mp hp with rfl | hp
    · rcases List.mem_cons.mp hq with rfl | hq
      · rfl
      · exact absurd he.symm (hother q hq)
    · rcases List.mem_cons.mp hq with rfl | hq
      · exact absurd he (hother p hp)
      · exact h.inj p hp q hq he

theorem Book.erase (h : Book Vacant blank m bound) (s : σ) :
    Book Vacant blank (Function.update m s blank) (bound.filter fun p => p.1 ≠ s) := by
  have hmem : ∀ {p}, p ∈ bound.filter (fun p => p.1 ≠ s) → p ∈ bound ∧ p.1 ≠ s := by
    intro p hp
    obtain ⟨hp, hne⟩ := List.mem_filter.mp hp
    exact ⟨hp, of_decide_eq_true hne⟩
  refine ⟨?_, ?_, ?_, ?_⟩
  · intro p hp
    rw [Function.update_of_ne (hmem hp).2]
    exact h.kept p (hmem hp).1
  · exact fun p hp => h.taken p (hmem hp).1
  · intro t ht
    have hts : t ≠ s := by
      rintro rfl
      exact ht (Function.update_self _ _ _)
    rw [Function.update_of_ne hts] at ht ⊢
    exact List.mem_filter.mpr ⟨h.known t ht, decide_eq_true hts⟩
  · exact fun p hp q hq he => h.inj p (hmem hp).1 q (hmem hq).1 he

end AtNode.Registry
