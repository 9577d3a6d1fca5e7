import Mathlib.Data.List.Nodup
import Mathlib.Tactic

/-!
# Lists with a key

A list whose elements are found, and written back, by a key.  Replacing leaves
the keys of the list as they are, so that a lookup after a replacement is
decided by the two keys alone.
-/

namespace Wanbond.Support

namespace Keyed

variable {α κ : Type} [DecidableEq κ] (key : α → κ)

/-- The first element with the given key. -/
def lookup (k : κ) (l : List α) : Option α :=
  l.find? fun x => decide (key x = k)

/-- Write `x` in place of the elements that have its key. -/
def replace (x : α) (l : List α) : List α :=
  l.map fun y => if key y = key x then x else y

variable {key}

variable {k : κ} {l : List α} {x : α}

theorem key_of_lookup (h : lookup key k l = some x) : key x = k := by
  simpa using List.find?_some h

theorem mem_of_lookup (h : lookup key k l = some x) : x ∈ l :=
  List.mem_of_find?_eq_some h

/-- A map that keeps the keys commutes with lookup. -/
theorem lookup_map {f : α → α} (hf : ∀ x, key (f x) = key x) (k : κ)
    (l : List α) : lookup key k (l.map f) = (lookup key k l).map f := by
  unfold lookup
  rw [List.find?_map]
  congr 2
  funext x
  simp [hf]

theorem key_replace (x y : α) :
    key (if key y = key x then x else y) = key y := by
  split
  next h => exact h.symm
  next => rfl

variable {y : α}

theorem lookup_replace_self (h : lookup key (key x) l = some y) :
    lookup key (key x) (replace key x l) = some x := by
  rw [replace, lookup_map (key_replace x), h, Option.map_some]
  simp [key_of_lookup h]

theorem lookup_replace_ne (hk : k ≠ key x) (l : List α) :
    lookup key k (replace key x l) = lookup key k l := by
  rw [replace, lookup_map (key_replace x)]
  cases h : lookup key k l with
  | none => rfl
  | some y =>
    have hy : key y ≠ key x := by
      rwa [key_of_lookup h]
    simp [hy]

@[simp] theorem map_key_replace (x : α) (l : List α) :
    (replace key x l).map key = l.map key := by
  rw [replace, List.map_map]
  exact List.map_congr_left fun y _ => key_replace x y

/-- The last of two replacements with one key stays. -/
theorem replace_replace {x x' : α} (h : key x' = key x) (l : List α) :
    replace key x' (replace key x l) = replace key x' l := by
  rw [replace, replace, replace, List.map_map]
  refine List.map_congr_left fun y _ => ?_
  simp only [Function.comp_apply, key_replace, h]
  split <;> simp_all

theorem lookup_append_of_none {l m : List α} (h : lookup key k l = none) :
    lookup key k (l ++ m) = lookup key k m := by
  unfold lookup at h ⊢
  rw [List.find?_append, h, Option.none_or]

theorem lookup_append_of_some {l m : List α} (h : lookup key k l = some x) :
    lookup key k (l ++ m) = some x := by
  unfold lookup at h ⊢
  rw [List.find?_append, h, Option.some_or]

/-- What is found after one more element was added at the end. -/
theorem lookup_append_singleton (h : lookup key k (l ++ [x]) = some y) :
    lookup key k l = some y ∨ lookup key k l = none ∧ y = x ∧ key x = k := by
  cases hl : lookup key k l with
  | some z =>
    rw [lookup_append_of_some hl] at h
    exact Or.inl h
  | none =>
    rw [lookup_append_of_none hl] at h
    simp only [lookup, List.find?_singleton] at h
    split at h
    next hk => exact Or.inr ⟨rfl, (Option.some.inj h).symm, of_decide_eq_true hk⟩
    next => cases h

theorem lookup_eq_none_iff : lookup key k l = none ↔ k ∉ l.map key := by
  simp [lookup, List.find?_eq_none]

variable {l' : List α}

/-- Lists of related elements with the same keys. -/
theorem lookup_forall₂ {R : α → α → Prop} (hR : ∀ x y, R x y → key y = key x)
    (h : List.Forall₂ R l l') (k : κ) :
    Option.Rel R (lookup key k l) (lookup key k l') := by
  unfold lookup
  induction h with
  | nil => exact .none
  | @cons x y _ _ hxy _ ih =>
    have hkey := hR x y hxy
    by_cases hk : key x = k
    · simpa [List.find?_cons, hkey, hk] using Option.Rel.some hxy
    · simpa [List.find?_cons, hkey, hk] using ih

theorem replace_forall₂ {R : α → α → Prop} (hR : ∀ x y, R x y → key y = key x)
    (h : List.Forall₂ R l l') (hxy : R x y) :
    List.Forall₂ R (replace key x l) (replace key y l') := by
  unfold replace
  rw [List.forall₂_map_left_iff, List.forall₂_map_right_iff]
  refine h.imp fun x' y' h' => ?_
  rw [hR x y hxy, hR x' y' h']
  split
  · exact hxy
  · exact h'

/-- With distinct keys, an element is found under its key. -/
theorem lookup_of_mem (hl : (l.map key).Nodup) (hx : x ∈ l) :
    lookup key (key x) l = some x := by
  induction l with
  | nil => cases hx
  | cons y l ih =>
    rw [List.map_cons, List.nodup_cons] at hl
    rcases List.mem_cons.mp hx with rfl | hx
    · simp [lookup]
    have hne : key y ≠ key x := by
      intro h
      exact hl.1 (h ▸ List.mem_map_of_mem hx)
    have := ih hl.2 hx
    simpa [lookup, hne] using this

variable {β : Type} {key' : β → κ}

/-- Some elements are rewritten, in an order of their own, and written back
under their keys. -/
theorem perm_written (value : β → α) {l taken : List α} {m : List β}
    {e : α → Bool} (hl : (l.map key).Nodup) (htaken : taken.Perm (l.filter e))
    (hm : m.map key' = taken.map key) :
    (l.map fun x => ((lookup key' (key x) m).map value).getD x).Perm
      (m.map value ++ l.filter fun x => !e x) := by
  have hnodup : (m.map key').Nodup := by
    rw [hm, (htaken.map key).nodup_iff]
    exact hl.sublist (List.filter_sublist.map key)
  have hwritten : (taken.map fun x =>
      ((lookup key' (key x) m).map value).getD x) = m.map value := by
    have hlength : m.length = taken.length := by
      simpa using congrArg List.length hm
    refine List.ext_getElem (by simp [hlength]) fun i h h' => ?_
    have hi : i < m.length := by simpa using h'
    have hkey : key' m[i] = key taken[i] := by
      have := List.getElem_of_eq hm (i := i) (by simpa using hi)
      simpa using this
    rw [List.getElem_map, List.getElem_map, ← hkey,
      lookup_of_mem hnodup (List.getElem_mem hi)]
    rfl
  have hrest : ((l.filter fun x => !e x).map fun x =>
      ((lookup key' (key x) m).map value).getD x) = l.filter fun x => !e x := by
    refine (List.map_congr_left fun x hx => ?_).trans (List.map_id _)
    obtain ⟨hxl, hxe⟩ := List.mem_filter.mp hx
    have hnone : lookup key' (key x) m = none := by
      rw [lookup_eq_none_iff, hm]
      intro hmem
      obtain ⟨y, hy, hkey⟩ := List.mem_map.mp hmem
      obtain ⟨hyl, hye⟩ := List.mem_filter.mp (htaken.mem_iff.mp hy)
      obtain rfl := List.inj_on_of_nodup_map hl hyl hxl hkey
      simp [hye] at hxe
    rw [hnone]
    rfl
  have hsplit := ((List.filter_append_perm e l).map fun x =>
    ((lookup key' (key x) m).map value).getD x).symm
  rw [List.map_append, hrest] at hsplit
  refine hsplit.trans ?_
  rw [← hwritten]
  exact (htaken.symm.map _).append_right _

omit [DecidableEq κ] in
/-- Two lists with the same keys are equal if elements of one key are. -/
theorem eq_of_map_key_eq (hkeys : l.map key = l'.map key)
    (h : ∀ x ∈ l, ∀ y ∈ l', key x = key y → x = y) : l = l' := by
  induction l generalizing l' with
  | nil => exact (List.map_eq_nil_iff.mp hkeys.symm).symm
  | cons x l ih =>
    cases l' with
    | nil => cases hkeys
    | cons y =>
      obtain ⟨hkey, hrest⟩ := List.cons.inj hkeys
      rw [h x List.mem_cons_self y List.mem_cons_self hkey,
        ih hrest fun x' hx' y' hy' => h x' (List.mem_cons_of_mem _ hx') y'
          (List.mem_cons_of_mem _ hy')]

/-- Writing back an element that is found changes nothing. -/
theorem replace_self (hnodup : (l.map key).Nodup)
    (h : lookup key (key x) l = some x) : replace key x l = l := by
  have hx := mem_of_lookup h
  conv_rhs => rw [← List.map_id l]
  refine List.map_congr_left fun y hy => ?_
  split
  next heq => exact (List.inj_on_of_nodup_map hnodup hy hx heq).symm
  next => rfl

/-! ## Removing -/

/-- Remove the first element with the given key. -/
def remove (key : α → κ) (k : κ) (l : List α) : List α :=
  l.eraseP fun x => decide (key x = k)

theorem map_key_remove (k : κ) (l : List α) :
    (remove key k l).map key = (l.map key).erase k := by
  rw [List.erase_eq_eraseP, List.eraseP_map, remove]
  congr 2
  funext x
  rw [Function.comp_apply, beq_eq_decide]
  exact decide_eq_decide.mpr eq_comm

theorem mem_of_mem_remove (h : x ∈ remove key k l) : x ∈ l :=
  List.mem_of_mem_eraseP h

/-- With distinct keys, what remains does not have the key. -/
theorem key_of_mem_remove (hl : (l.map key).Nodup) {x : α}
    (h : x ∈ remove key k l) : key x ≠ k := by
  intro heq
  have hmem : key x ∈ (remove key k l).map key := List.mem_map_of_mem h
  rw [map_key_remove, heq] at hmem
  exact hl.not_mem_erase hmem

theorem mem_remove_of_ne (hx : x ∈ l) (hne : key x ≠ k) : x ∈ remove key k l :=
  (List.mem_eraseP_of_neg (by simpa using hne)).mpr hx

theorem remove_of_notMem (h : k ∉ l.map key) : remove key k l = l := by
  refine List.eraseP_of_forall_not fun x hx => ?_
  simp only [decide_eq_true_eq]
  rintro rfl
  exact h (List.mem_map_of_mem hx)

/-- Removing what was added last undoes the addition. -/
theorem remove_append_self (h : k ∉ l.map key) (hx : key x = k) :
    remove key k (l ++ [x]) = l := by
  have hnot : ∀ y ∈ l, ¬ decide (key y = k) = true := by
    intro y hy
    simp only [decide_eq_true_eq]
    rintro rfl
    exact h (List.mem_map_of_mem hy)
  rw [remove, List.eraseP_append_right _ hnot,
    List.eraseP_cons_of_pos (by simpa using hx), List.append_nil]

/-- Removing at the index found for a key removes the key. -/
theorem eraseIdx_eq_remove {i : ℕ}
    (h : l.findIdx? (fun x => decide (key x = k)) = some i) :
    l.eraseIdx i = remove key k l := by
  rw [remove, List.eraseP_eq_eraseIdx, h]

/-- Lists with the same keys find a key at the same index. -/
theorem findIdx?_congr {l' : List β} (h : l.map key = l'.map key') :
    l.findIdx? (fun x => decide (key x = k)) =
      l'.findIdx? (fun x => decide (key' x = k)) := by
  have hl : (l.map key).findIdx? (fun x => decide (x = k)) =
      l.findIdx? (fun x => decide (key x = k)) := List.findIdx?_map
  have hl' : (l'.map key').findIdx? (fun x => decide (x = k)) =
      l'.findIdx? (fun x => decide (key' x = k)) := List.findIdx?_map
  rw [← hl, ← hl', h]

/-- A map that keeps the keys commutes with removal. -/
theorem map_remove {f : α → β} (hf : ∀ x, key' (f x) = key x) (k : κ)
    (l : List α) : (remove key k l).map f = remove key' k (l.map f) := by
  rw [remove, remove, List.eraseP_map]
  congr 2
  funext x
  simp [hf]

end Keyed

end Wanbond.Support
