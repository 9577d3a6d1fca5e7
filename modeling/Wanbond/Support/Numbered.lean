import Mathlib.Algebra.BigOperators.Group.Multiset.Basic
import Mathlib.Algebra.Order.BigOperators.Group.List
import Mathlib.Tactic

/-!
# Numbered histories

A history, newest entry first, whose entries carry the numbers `n, …, 2, 1`,
and the totals of a size over its first entries.  The last section compares
such a total with the total of a subset: a subset that weighs as much as the
first `k` entries contains all of them.
-/

namespace Wanbond.Support

variable {α : Type}

inductive Numbered : List (ℕ × α) → Prop where
  | nil : Numbered []
  | cons {l : List (ℕ × α)} (h : Numbered l) (x : α) :
      Numbered ((l.length + 1, x) :: l)

variable {l : List (ℕ × α)} {e : ℕ × α} {k : ℕ}

namespace Numbered

theorem bounds (h : Numbered l) (he : e ∈ l) : 0 < e.1 ∧ e.1 ≤ l.length := by
  induction h with
  | nil => cases he
  | cons h x ih =>
    rcases List.mem_cons.mp he with rfl | he
    · simp
    · have := ih he
      simp only [List.length_cons]
      omega

theorem nodup (h : Numbered l) : (l.map Prod.fst).Nodup := by
  induction h with
  | nil => simp
  | cons h x ih =>
    rw [List.map_cons, List.nodup_cons]
    refine ⟨?_, ih⟩
    intro hmem
    obtain ⟨e, he, heq⟩ := List.mem_map.mp hmem
    have := (h.bounds he).2
    simp only at heq
    omega

theorem map_fst (h : Numbered l) :
    l.map Prod.fst = (List.range' 1 l.length).reverse := by
  induction h with
  | nil => rfl
  | cons h x ih =>
    rw [List.map_cons, ih, List.length_cons, List.range'_concat,
      List.reverse_append, Nat.one_mul, Nat.add_comm 1]
    rfl

variable {x : α}

/-- A number belongs to one entry. -/
theorem unique (h : Numbered l) {y : α} (hx : (k, x) ∈ l) (hy : (k, y) ∈ l) :
    x = y := by
  have hinj := List.inj_on_of_nodup_map h.nodup hx hy rfl
  exact (Prod.mk.inj hinj).2

theorem exists_of_le (h : Numbered l) (hk : 0 < k) (hle : k ≤ l.length) :
    ∃ x, (k, x) ∈ l := by
  induction h with
  | nil =>
    simp only [List.length_nil] at hle
    omega
  | @cons l h x ih =>
    by_cases heq : k = l.length + 1
    · exact ⟨x, by simp [heq]⟩
    have hle' : k ≤ l.length := by
      simp only [List.length_cons] at hle
      omega
    obtain ⟨y, hy⟩ := ih hle'
    exact ⟨y, List.mem_cons_of_mem _ hy⟩

/-- Newer entries have numbers beyond all older ones. -/
theorem lt_of_mem_append {newer older : List (ℕ × α)}
    (h : Numbered (newer ++ older)) (he : e ∈ newer) : older.length < e.1 := by
  induction newer with
  | nil => cases he
  | cons x newer ih =>
    cases h with
    | cons h x =>
      rcases List.mem_cons.mp he with rfl | he
      · have : (newer ++ older).length = newer.length + older.length :=
          List.length_append
        show older.length < (newer ++ older).length + 1
        omega
      · exact ih h he

/-! ### Numbers of a part

Where the entries of a list and those of a part of it are both numbered, the
numbers in the part grow with, and no faster than, those in the whole. -/

section Part

variable {l : List α} {f g : α → ℕ} {p : α → Bool}

theorem of_cons (h : Numbered ((x :: l).map fun x => (f x, x))) :
    f x = l.length + 1 ∧ Numbered (l.map fun x => (f x, x)) := by
  rw [List.map_cons] at h
  generalize hrest : l.map (fun x => (f x, x)) = rest at h
  generalize hfirst : (f x, x) = first at h
  cases h with
  | cons h y =>
    refine ⟨?_, h⟩
    rw [(Prod.mk.inj hfirst).1, ← hrest, List.length_map]

theorem le_length (h : Numbered (l.map fun x => (f x, x))) (hx : x ∈ l) :
    f x ≤ l.length := by
  have hbounds := (h.bounds (List.mem_map_of_mem hx)).2
  rwa [List.length_map] at hbounds

/-- As many entries of the part follow one of them as of the whole, at most. -/
theorem part_length (hf : Numbered (l.map fun x => (f x, x)))
    (hg : Numbered ((l.filter p).map fun x => (g x, x))) (hx : x ∈ l)
    (hp : p x = true) : (l.filter p).length + f x ≤ l.length + g x := by
  induction l with
  | nil => cases hx
  | cons y l ih =>
    obtain ⟨hy, hf⟩ := of_cons hf
    by_cases hpy : p y = true
    · rw [List.filter_cons_of_pos hpy] at hg ⊢
      obtain ⟨hgy, hg⟩ := of_cons hg
      simp only [List.length_cons]
      rcases List.mem_cons.mp hx with rfl | hx
      · omega
      · have := ih hf hg hx
        omega
    rw [List.filter_cons_of_neg hpy] at hg ⊢
    simp only [List.length_cons]
    rcases List.mem_cons.mp hx with rfl | hx
    · exact absurd hp hpy
    · have := ih hf hg hx
      omega

theorem part_gap (hf : Numbered (l.map fun x => (f x, x)))
    (hg : Numbered ((l.filter p).map fun x => (g x, x))) {y : α} (hx : x ∈ l)
    (hy : y ∈ l) (hpx : p x = true) (hpy : p y = true) (hle : f x ≤ f y) :
    g x ≤ g y ∧ g y + f x ≤ g x + f y := by
  induction l with
  | nil => cases hx
  | cons z l ih =>
    obtain ⟨hz, hfl⟩ := of_cons hf
    rcases List.mem_cons.mp hy with rfl | hy
    · rw [List.filter_cons_of_pos hpy] at hg
      obtain ⟨hgy, hgl⟩ := of_cons hg
      rcases List.mem_cons.mp hx with rfl | hx
      · omega
      · have hlast := hgl.le_length (List.mem_filter.mpr ⟨hx, hpx⟩)
        have hlength := hfl.part_length hgl hx hpx
        omega
    have hyl := hfl.le_length hy
    rcases List.mem_cons.mp hx with rfl | hx
    · omega
    refine ih hfl ?_ hx hy
    by_cases hpz : p z = true
    · rw [List.filter_cons_of_pos hpz] at hg
      exact (of_cons hg).2
    · rwa [List.filter_cons_of_neg hpz] at hg

end Part

end Numbered

/-- The numbers of an extended history. -/
theorem numbers_cons (k : ℕ) (x : α) (l : List (ℕ × α)) :
    { i | ∃ y, (i, y) ∈ (k, x) :: l } = insert k { i | ∃ y, (i, y) ∈ l } := by
  ext i
  simp only [List.mem_cons, Prod.mk.injEq, Set.mem_ofPred_eq, Set.mem_insert_iff]
  constructor
  · rintro ⟨y, ⟨rfl, -⟩ | hy⟩
    · exact Or.inl rfl
    · exact Or.inr ⟨y, hy⟩
  · rintro (rfl | ⟨y, hy⟩)
    · exact ⟨x, Or.inl ⟨rfl, rfl⟩⟩
    · exact ⟨y, Or.inr hy⟩

/-! ## Totals -/

/-- The total size of a history. -/
def total (size : α → ℕ) (l : List (ℕ × α)) : ℕ :=
  (l.map fun e => size e.2).sum

/-- The total size of the entries numbered at most `k`. -/
def through (size : α → ℕ) (k : ℕ) (l : List (ℕ × α)) : ℕ :=
  total size (l.filter fun e => decide (e.1 ≤ k))

variable {size : α → ℕ}

@[simp] theorem total_nil : total size [] = 0 := rfl

@[simp] theorem total_cons (e : ℕ × α) (l : List (ℕ × α)) :
    total size (e :: l) = size e.2 + total size l := by
  simp [total]

theorem Numbered.through_length (h : Numbered l) :
    through size l.length l = total size l := by
  have hall : (l.filter fun e => decide (e.1 ≤ l.length)) = l := by
    rw [List.filter_eq_self]
    intro e he
    simpa using (h.bounds he).2
  rw [through, hall]

/-- A new entry leaves the totals through older ones alone. -/
theorem through_cons_of_lt (hk : k < e.1) (l : List (ℕ × α)) :
    through size k (e :: l) = through size k l := by
  have : ¬e.1 ≤ k := by omega
  simp [through, this]

/-- The totals through older entries do not change with newer ones. -/
theorem Numbered.through_append {newer older : List (ℕ × α)}
    (h : Numbered (newer ++ older)) (hk : k ≤ older.length) :
    through size k (newer ++ older) = through size k older := by
  have hnewer : (newer.filter fun e => decide (e.1 ≤ k)) = [] := by
    rw [List.filter_eq_nil_iff]
    intro e he
    have := h.lt_of_mem_append he
    simp only [decide_eq_true_eq]
    omega
  rw [through, through, List.filter_append, hnewer, List.nil_append]

theorem through_mono {k' : ℕ} (hk : k ≤ k') (l : List (ℕ × α)) :
    through size k l ≤ through size k' l := by
  induction l with
  | nil => exact le_rfl
  | cons e l ih =>
    by_cases he : e.1 ≤ k
    · have he' := he.trans hk
      simp only [through, List.filter_cons, he, he', decide_true, if_true,
        total_cons] at ih ⊢
      omega
    by_cases he' : e.1 ≤ k'
    · simp only [through, List.filter_cons, he, he', decide_true,
        decide_false, if_true, Bool.false_eq_true, if_false,
        total_cons] at ih ⊢
      omega
    · simpa only [through, List.filter_cons, he, he', decide_false,
        Bool.false_eq_true, if_false] using ih

/-! ## Comparison with a subset -/

section Subset

variable {k : ℕ} {c l : List (ℕ × α)}

theorem coe_le_filter (hc : (c.map Prod.fst).Nodup)
    (hsub : ∀ e ∈ c, e ∈ l ∧ e.1 ≤ k) :
    (c : Multiset (ℕ × α)) ≤ (l.filter fun e => decide (e.1 ≤ k) : List _) := by
  have hnodup : (c : Multiset (ℕ × α)).Nodup := by
    simpa using hc.of_map
  rw [Multiset.le_iff_subset hnodup]
  intro e he
  have := hsub e (by simpa using he)
  simpa using this

theorem total_eq_sum_coe (l : List (ℕ × α)) :
    total size l = ((l : Multiset (ℕ × α)).map fun e => size e.2).sum := by
  simp [total]

/-- A subset weighs at most as much as the whole. -/
theorem total_le_of_subset (size : α → ℕ) (hc : (c.map Prod.fst).Nodup)
    (hsub : c ⊆ l) : total size c ≤ total size l := by
  have hle : (c : Multiset (ℕ × α)) ≤ (l : Multiset (ℕ × α)) :=
    (Multiset.le_iff_subset (by simpa using hc.of_map)).mpr hsub
  obtain ⟨rest, hrest⟩ := Multiset.le_iff_exists_add.mp hle
  rw [total_eq_sum_coe, total_eq_sum_coe, hrest, Multiset.map_add,
    Multiset.sum_add]
  exact Nat.le_add_right _ _

/-- A subset that weighs as much as the first `k` entries has all of them. -/
theorem mem_of_through_le_total (hc : (c.map Prod.fst).Nodup)
    (hsub : ∀ e ∈ c, e ∈ l ∧ e.1 ≤ k) (hpos : ∀ e ∈ l, 0 < size e.2)
    (hle : through size k l ≤ total size c) (he : e ∈ l) (hk : e.1 ≤ k) :
    e ∈ c := by
  obtain ⟨rest, hrest⟩ := Multiset.le_iff_exists_add.mp (coe_le_filter hc hsub)
  have hsum : (rest.map fun e => size e.2).sum = 0 := by
    rw [through, total_eq_sum_coe, total_eq_sum_coe, hrest, Multiset.map_add,
      Multiset.sum_add] at hle
    omega
  have hmem : e ∈ (c : Multiset (ℕ × α)) + rest := by
    rw [← hrest]
    simpa using And.intro he hk
  rcases Multiset.mem_add.mp hmem with hin | hin
  · simpa using hin
  have hzero := Multiset.sum_eq_zero_iff.mp hsum (size e.2)
    (Multiset.mem_map_of_mem _ hin)
  have := hpos e he
  omega

end Subset

end Wanbond.Support
