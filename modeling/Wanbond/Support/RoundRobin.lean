import Mathlib.Data.List.Nodup

/-!
# Serving in turns

Parties wait in a list and the first one is served.  A party that has more to
be served goes to the end, others leave, and new ones arrive at the end.
Between two turns of a party that stays, every other party that stays has
exactly one turn.
-/

namespace Wanbond.Support.RoundRobin

variable {ν : Type}

/-- One move of the list, with the party that it serves. -/
inductive Move : List ν → Option ν → List ν → Prop
  | wait (l : List ν) : Move l none l
  | arrive (l : List ν) {y : ν} (hy : y ∉ l) : Move l none (l ++ [y])
  | serve (x : ν) (l : List ν) : Move (x :: l) (some x) (l ++ [x])
  | leave (x : ν) (l : List ν) : Move (x :: l) (some x) l

/-- Moves in a row, the property holding before and after each. -/
inductive Moves (P : List ν → Prop) : List ν → List (Option ν) → List ν → Prop
  | nil {l : List ν} (h : P l) : Moves P l [] l
  | cons {l m n : List ν} {o : Option ν} {os : List (Option ν)} (h : P l)
      (hmove : Move l o m) (hrest : Moves P m os n) : Moves P l (o :: os) n

variable {P : List ν → Prop} {x y : ν} {l m n : List ν} {o : Option ν}
  {os : List (Option ν)}

theorem Moves.start (h : Moves P l os n) : P l := by
  cases h with
  | nil h => exact h
  | cons h => exact h

theorem Move.nodup (h : Move l o m) (hl : l.Nodup) : m.Nodup := by
  cases h with
  | wait => exact hl
  | arrive _ hy => exact List.nodup_append.mpr ⟨hl, List.nodup_singleton _,
      fun a ha b hb hab => hy (List.mem_singleton.mp hb ▸ hab ▸ ha)⟩
  | serve =>
    obtain ⟨hx, hl⟩ := List.nodup_cons.mp hl
    exact List.nodup_append.mpr ⟨hl, List.nodup_singleton _,
      fun a ha b hb hab => hx (List.mem_singleton.mp hb ▸ hab ▸ ha)⟩
  | leave => exact (List.nodup_cons.mp hl).2

/-- `x` waits ahead of `y`. -/
def Ahead (x y : ν) (l : List ν) : Prop :=
  ∃ a b c, l = a ++ x :: (b ++ y :: c)

namespace Ahead

theorem append (h : Ahead x y l) (m : List ν) : Ahead x y (l ++ m) := by
  obtain ⟨a, b, c, rfl⟩ := h
  exact ⟨a, b, c ++ m, by simp⟩

theorem tail {z : ν} (h : Ahead x y (z :: l)) (hz : z ≠ x) : Ahead x y l := by
  obtain ⟨a, b, c, heq⟩ := h
  cases a with
  | nil => exact absurd (List.cons.inj heq).1 hz
  | cons w a => exact ⟨a, b, c, (List.cons.inj heq).2⟩

theorem last (hx : x ∈ l) : Ahead x y (l ++ [y]) := by
  obtain ⟨a, b, rfl⟩ := List.append_of_mem hx
  exact ⟨a, b, [], by simp⟩

/-- Nobody waits ahead of the first party. -/
theorem not_head (hl : (y :: l).Nodup) (hxy : x ≠ y) : ¬Ahead x y (y :: l) := by
  rintro ⟨a, b, c, heq⟩
  cases a with
  | nil => exact hxy (List.cons.inj heq).1.symm
  | cons =>
    obtain ⟨rfl, rfl⟩ := List.cons.inj heq
    exact (List.nodup_cons.mp hl).1 (by simp)

theorem head_ne {z : ν} (h : Ahead x y (z :: l)) (hl : (z :: l).Nodup)
    (hxy : x ≠ y) : z ≠ y := by
  rintro rfl
  exact not_head hl hxy h

end Ahead

/-- While `x` waits ahead of `y` and is not served, `y` has no turn. -/
theorem Moves.count_eq_zero [DecidableEq ν] (h : Moves P l os n) (hl : l.Nodup)
    (hxy : x ≠ y) (hahead : Ahead x y l) (hx : some x ∉ os) :
    os.count (some y) = 0 := by
  induction h with
  | nil => rfl
  | cons hP hmove _ ih =>
    obtain ⟨hhead, hrest⟩ := not_or.mp (List.mem_cons.not.mp hx)
    have hnext := ih (hmove.nodup hl)
    cases hmove with
    | wait l =>
      rw [List.count_cons_of_ne (Option.some_ne_none y).symm]
      exact hnext hahead hrest
    | arrive =>
      rw [List.count_cons_of_ne (Option.some_ne_none y).symm]
      exact hnext (hahead.append _) hrest
    | serve z l =>
      have hz : z ≠ x := fun h => hhead (h ▸ rfl)
      have hzy := hahead.head_ne hl hxy
      rw [List.count_cons_of_ne fun h => hzy (Option.some.inj h)]
      exact hnext ((hahead.tail hz).append _) hrest
    | leave z l =>
      have hz : z ≠ x := fun h => hhead (h ▸ rfl)
      have hzy := hahead.head_ne hl hxy
      rw [List.count_cons_of_ne fun h => hzy (Option.some.inj h)]
      exact hnext (hahead.tail hz) hrest

/-- Until `x` is first again, `y` waiting ahead of it has one turn. -/
theorem Moves.count_eq_one [DecidableEq ν]
    (h : Moves (fun l => x ∈ l ∧ y ∈ l) l os n) (hl : l.Nodup) (hxy : x ≠ y)
    (hahead : Ahead y x l) (hx : some x ∉ os) (hend : n.head? = some x) :
    os.count (some y) = 1 := by
  induction h with
  | @nil l hP =>
    cases l with
    | nil => cases hend
    | cons z l =>
      obtain rfl : z = x := Option.some.inj hend
      exact absurd hahead (Ahead.not_head hl hxy.symm)
  | cons hP hmove hmoves ih =>
    obtain ⟨hhead, hrest⟩ := not_or.mp (List.mem_cons.not.mp hx)
    have hnodup := hmove.nodup hl
    have hstart := hmoves.start
    have hnext := fun h => ih hnodup h hrest hend
    cases hmove with
    | wait l =>
      rw [List.count_cons_of_ne (Option.some_ne_none y).symm]
      exact hnext hahead
    | arrive =>
      rw [List.count_cons_of_ne (Option.some_ne_none y).symm]
      exact hnext (hahead.append _)
    | serve z l =>
      have hz : z ≠ x := fun h => hhead (h ▸ rfl)
      by_cases hzy : z = y
      · -- the turn of `y`: from here on `x` waits ahead of it
        subst hzy
        have hxl : x ∈ l := (List.mem_append.mp hstart.1).resolve_right
          fun h => hz (List.mem_singleton.mp h).symm
        rw [List.count_cons_self,
          hmoves.count_eq_zero hnodup hxy (.last hxl) hrest]
      · rw [List.count_cons_of_ne fun h => hzy (Option.some.inj h)]
        exact hnext ((hahead.tail hzy).append _)
    | leave z l =>
      have hzy : z ≠ y := by
        rintro rfl
        exact (List.nodup_cons.mp hl).1 hstart.2
      rw [List.count_cons_of_ne fun h => hzy (Option.some.inj h)]
      exact hnext (hahead.tail hzy)

end Wanbond.Support.RoundRobin
