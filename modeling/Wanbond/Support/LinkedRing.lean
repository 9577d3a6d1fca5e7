import Mathlib.Data.List.Nodup
import Mathlib.Data.List.Rotate
import Mathlib.Logic.Function.Basic

/-!
# Doubly linked rings

Nodes with a pointer to the next node and one to the previous.  A list lists a
ring if each of its nodes points to the one after it, the last to the first,
and back.  Inserting before the head appends to the list, removing the head
drops it, and moving the head on rotates the list.
-/

namespace Wanbond.Support

/-- The pointers of the nodes. -/
structure Links (ν : Type) where
  next : ν → ν
  previous : ν → ν

namespace Links

variable {ν : Type}

/-- The list is the ring, read from its head on. -/
structure Circle (k : Links ν) (l : List ν) : Prop where
  nodup : l.Nodup
  joined : ∀ i x y, l[i]? = some x → l[(i + 1) % l.length]? = some y →
    k.next x = y ∧ k.previous y = x

namespace Circle

variable {k : Links ν} {l : List ν} {x y : ν}

/-- A node is at one place of its ring. -/
theorem place_unique (h : k.Circle l) {i j : ℕ} (hi : l[i]? = some x)
    (hj : l[j]? = some x) : i = j :=
  (List.getElem?_inj (List.getElem?_eq_some_iff.mp hi).1 h.nodup).mp
    (hi.trans hj.symm)

theorem nil (k : Links ν) : k.Circle [] := ⟨List.nodup_nil, fun _ _ _ h => nomatch h⟩

/-- The head points back to the last node. -/
theorem previous_head (h : k.Circle (x :: l)) :
    (x :: l)[l.length]? = some (k.previous x) := by
  have hlast : l.length < (x :: l).length := Nat.lt_succ_self _
  have hw := List.getElem?_eq_getElem hlast
  have hjoined := h.joined l.length _ x hw (by
    rw [List.length_cons, Nat.mod_self]
    rfl)
  rw [hw, hjoined.2]

theorem next_head (h : k.Circle (x :: y :: l)) : k.next x = y :=
  (h.joined 0 x y rfl (by
    rw [Nat.mod_eq_of_lt (by simp)]
    rfl)).1

theorem next_alone (h : k.Circle [x]) : k.next x = x :=
  (h.joined 0 x x rfl (by
    rw [List.length_singleton, Nat.mod_one]
    rfl)).1

/-- In a ring of several nodes the head is not its own neighbour. -/
theorem previous_head_ne (h : k.Circle (x :: y :: l)) : k.previous x ≠ x := by
  intro hself
  have hlast := h.previous_head
  rw [hself] at hlast
  have := h.place_unique (i := 0) rfl hlast
  rw [List.length_cons] at this
  omega

/-- The head moves on. -/
theorem rotate (h : k.Circle (x :: l)) : k.Circle (l ++ [x]) := by
  have hrotate : l ++ [x] = (x :: l).rotate 1 := by
    rw [List.rotate_cons_succ, List.rotate_zero]
  rw [hrotate]
  refine ⟨List.nodup_rotate.mpr h.nodup, fun i a b ha hb => ?_⟩
  have hi : i < (x :: l).length := by
    have := (List.getElem?_eq_some_iff.mp ha).1
    rwa [List.length_rotate] at this
  rw [List.getElem?_rotate hi] at ha
  rw [List.length_rotate, List.getElem?_rotate (Nat.mod_lt _ (by simp))] at hb
  exact h.joined _ a b ha hb

end Circle

variable [DecidableEq ν]

def setNext (k : Links ν) (x y : ν) : Links ν :=
  { k with next := Function.update k.next x y }

def setPrevious (k : Links ν) (x y : ν) : Links ν :=
  { k with previous := Function.update k.previous x y }

/-- The node alone points to itself. -/
def alone (k : Links ν) (z : ν) : Links ν := (k.setNext z z).setPrevious z z

/-- The node `z` between the last node and the head `x`. -/
def insertBefore (k : Links ν) (x z : ν) : Links ν :=
  (((k.setNext z x).setPrevious z (k.previous x)).setNext (k.previous x)
    z).setPrevious x z

/-- The nodes around `x` point past it. -/
def remove (k : Links ν) (x : ν) : Links ν :=
  (k.setNext (k.previous x) (k.next x)).setPrevious (k.next x) (k.previous x)

namespace Circle

variable {k : Links ν} {l : List ν} {x y z : ν}

theorem alone (k : Links ν) (z : ν) : (k.alone z).Circle [z] := by
  refine ⟨List.nodup_singleton z, fun i x y hx hy => ?_⟩
  obtain rfl : z = y := by
    rw [List.length_singleton, Nat.mod_one] at hy
    exact Option.some.inj hy
  obtain rfl := List.mem_singleton.mp (List.mem_of_getElem? hx)
  exact ⟨Function.update_self .., Function.update_self ..⟩

/-- A new node comes after the last one. -/
theorem insertBefore (h : k.Circle (x :: l)) (hz : z ∉ x :: l) :
    (k.insertBefore x z).Circle (x :: l ++ [z]) := by
  have hlast := h.previous_head
  have hne : ∀ {i : ℕ} {a : ν}, (x :: l)[i]? = some a → a ≠ z := by
    rintro i a ha rfl
    exact hz (List.mem_of_getElem? ha)
  have hxz : x ≠ z := hne (i := 0) rfl
  refine ⟨List.nodup_append.mpr ⟨h.nodup, List.nodup_singleton z, ?_⟩,
    fun i a b ha hb => ?_⟩
  · intro a ha b hb hab
    obtain rfl := List.mem_singleton.mp hb
    exact hz (hab ▸ ha)
  have hlength : (x :: l ++ [z]).length = l.length + 2 := by simp
  rw [hlength] at hb
  have hi : i < l.length + 2 := by
    rw [← hlength]
    exact (List.getElem?_eq_some_iff.mp ha).1
  rcases Nat.lt_trichotomy i l.length with hlt | rfl | hgt
  · -- both nodes are old ones, and neither pointer is rewritten
    rw [Nat.mod_eq_of_lt (by omega), List.getElem?_append_left (by simp; omega)] at hb
    rw [List.getElem?_append_left (by simp; omega)] at ha
    obtain ⟨hnext, hprevious⟩ := h.joined i a b ha (by
      rw [List.length_cons, Nat.mod_eq_of_lt (by omega)]
      exact hb)
    have ha' : a ≠ k.previous x := by
      rintro rfl
      have := h.place_unique ha hlast
      omega
    have hb' : b ≠ x := by
      rintro rfl
      have := h.place_unique (j := 0) hb rfl
      omega
    refine ⟨?_, ?_⟩
    · show Function.update (Function.update k.next z x) (k.previous x) z a = b
      rw [Function.update_of_ne ha', Function.update_of_ne (hne ha), hnext]
    · show Function.update (Function.update k.previous z (k.previous x)) x z b = a
      rw [Function.update_of_ne hb', Function.update_of_ne (hne hb), hprevious]
  · -- the old last node and the new one
    rw [List.getElem?_append_left (by simp)] at ha
    obtain rfl := Option.some.inj (hlast.symm.trans ha)
    obtain rfl : z = b := by
      rw [Nat.mod_eq_of_lt (by omega), List.getElem?_append_right (by simp)] at hb
      simpa using hb
    refine ⟨Function.update_self .., ?_⟩
    show Function.update (Function.update k.previous z (k.previous x)) x z z = _
    rw [Function.update_of_ne hxz.symm, Function.update_self]
  · -- the new node and the head
    obtain rfl : i = l.length + 1 := by omega
    obtain rfl : z = a := by
      rw [List.getElem?_append_right (by simp)] at ha
      simpa using ha
    obtain rfl : x = b := by
      rw [Nat.mod_self] at hb
      simpa using hb
    refine ⟨?_, Function.update_self ..⟩
    show Function.update (Function.update k.next z x) (k.previous x) z z = x
    rw [Function.update_of_ne (hne hlast).symm, Function.update_self]

/-- The head leaves a ring of several nodes. -/
theorem remove (h : k.Circle (x :: y :: l)) : (k.remove x).Circle (y :: l) := by
  have hlast := h.previous_head
  have hnext := h.next_head
  refine ⟨(List.nodup_cons.mp h.nodup).2, fun i a b ha hb => ?_⟩
  have hi : i < l.length + 1 := (List.getElem?_eq_some_iff.mp ha).1
  have ha' : (x :: y :: l)[i + 1]? = some a := ha
  unfold Links.remove
  rw [hnext]
  by_cases hend : i = l.length
  · subst hend
    obtain rfl := Option.some.inj (ha'.symm.trans hlast)
    obtain rfl : y = b := by
      rw [List.length_cons, Nat.mod_self] at hb
      exact Option.some.inj hb
    exact ⟨Function.update_self .., Function.update_self ..⟩
  rw [List.length_cons, Nat.mod_eq_of_lt (by omega)] at hb
  have hb' : (x :: y :: l)[i + 1 + 1]? = some b := hb
  obtain ⟨hab, hba⟩ := h.joined (i + 1) a b ha' (by
    rw [List.length_cons, List.length_cons, Nat.mod_eq_of_lt (by omega)]
    exact hb')
  have hane : a ≠ k.previous x := by
    rintro rfl
    have := h.place_unique ha' hlast
    rw [List.length_cons] at this
    omega
  have hbne : b ≠ y := by
    rintro rfl
    have := h.place_unique (j := 1) hb' rfl
    omega
  refine ⟨?_, ?_⟩
  · show Function.update k.next (k.previous x) y a = b
    rw [Function.update_of_ne hane, hab]
  · show Function.update k.previous y (k.previous x) b = a
    rw [Function.update_of_ne hbne, hba]

end Circle

end Links

end Wanbond.Support
