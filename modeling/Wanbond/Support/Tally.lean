import Mathlib.Algebra.BigOperators.Group.List.Basic
import Mathlib.Algebra.Order.BigOperators.Group.List
import Mathlib.Algebra.Order.Ring.Int
import Mathlib.Algebra.Order.Ring.Nat
import Mathlib.Data.List.AList

/-!
# Sums over the values of an association list

`tally f s` adds up `f` over the values of `s`.  Inserting under a new key adds
the new value, erasing a key takes its value away, and writing over a key does
both.
-/

namespace Wanbond.Support

variable {α β M : Type*} [AddCommMonoid M]

/-- The sum of `f` over the values of an association list. -/
def tally (f : β → M) (s : AList fun _ : α => β) : M :=
  (s.entries.map fun e => f e.2).sum

@[simp] theorem tally_empty (f : β → M) :
    tally f (∅ : AList fun _ : α => β) = 0 := rfl

theorem tally_one (s : AList fun _ : α => β) :
    tally (fun _ => 1) s = s.entries.length := by
  simp [tally]

theorem tally_nonneg {f : β → ℤ} (hf : ∀ b, 0 ≤ f b)
    (s : AList fun _ : α => β) : 0 ≤ tally f s := by
  refine List.sum_nonneg fun x hx => ?_
  obtain ⟨e, -, rfl⟩ := List.mem_map.mp hx
  exact hf e.2

theorem tally_le_length {f : β → ℕ} (hf : ∀ b, f b ≤ 1)
    (s : AList fun _ : α => β) : tally f s ≤ s.entries.length := by
  rw [← tally_one s]
  exact List.sum_le_sum fun e _ => hf e.2

variable [DecidableEq α]

theorem tally_congr {f g : β → M} {s : AList fun _ : α => β}
    (h : ∀ a b, s.lookup a = some b → f b = g b) : tally f s = tally g s := by
  unfold tally
  congr 1
  refine List.map_congr_left fun e he => h e.1 e.2 ?_
  exact AList.mem_lookup_iff.mpr he

section Change

variable (f : β → M) {s : AList fun _ : α => β} {a : α} {b : β}

/-- The entry of a key, taken out. -/
theorem perm_cons_erase (h : s.lookup a = some b) :
    s.entries.Perm (⟨a, b⟩ :: (s.erase a).entries) := by
  have hmem : (⟨a, b⟩ : Sigma fun _ : α => β) ∈ s.entries :=
    AList.mem_lookup_iff.mp h
  obtain ⟨c, l₁, l₂, -, heq, hkerase⟩ :=
    List.exists_of_kerase (List.mem_keys_of_mem hmem)
  have hc : s.lookup a = some c := by
    refine AList.mem_lookup_iff.mpr ?_
    rw [heq]
    simp
  obtain rfl : c = b := Option.some.inj (hc.symm.trans h)
  show s.entries.Perm (⟨a, c⟩ :: List.kerase a s.entries)
  rw [hkerase, heq]
  exact List.perm_middle

theorem erase_of_none (h : s.lookup a = none) : s.erase a = s := by
  apply AList.ext
  exact List.kerase_of_notMem_keys (AList.lookup_eq_none.mp h)

theorem tally_insert_of_none (b : β) (h : s.lookup a = none) :
    tally f (s.insert a b) = f b + tally f s := by
  have hmem : a ∉ s := AList.lookup_eq_none.mp h
  rw [tally, AList.entries_insert_of_notMem hmem, List.map_cons, List.sum_cons]
  rfl

theorem tally_erase_of_some (h : s.lookup a = some b) :
    f b + tally f (s.erase a) = tally f s := by
  have hperm := (perm_cons_erase h).map fun e => f e.2
  rw [tally, tally, hperm.sum_eq, List.map_cons, List.sum_cons]

theorem tally_insert_of_some (b' : β) (h : s.lookup a = some b) :
    f b + tally f (s.insert a b') = f b' + tally f s := by
  have hentries : (s.insert a b').entries = ⟨a, b'⟩ :: (s.erase a).entries :=
    AList.entries_insert
  rw [← tally_erase_of_some f h, tally, hentries, List.map_cons, List.sum_cons]
  exact add_left_comm _ _ _

end Change

end Wanbond.Support
