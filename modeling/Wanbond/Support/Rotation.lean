import Mathlib.Data.List.Rotate

/-!
# Taking turns through a list

The members of a duplicate-free list are visited in order, and after the last
one the first comes again.  As many turns as the list is long visit every
member once, and what has been visited lies behind the current member.
-/

namespace Wanbond.Support

variable {α : Type*}

/-! ## Positions -/

variable {l : List α} {e : α} {p : ℕ}

section Positions

variable [DecidableEq α]

def position (l : List α) (e : α) : Option ℕ := l.findIdx? (· = e)

theorem position_getElem (hnodup : l.Nodup) {i : ℕ} (hi : i < l.length) :
    position l l[i] = some i := by
  rw [position, List.findIdx?_eq_some_iff_getElem]
  refine ⟨hi, by simp, ?_⟩
  intro j hj
  have hne : l[j] ≠ l[i] := by
    intro heq
    exact hj.ne ((hnodup.getElem_inj_iff).mp heq)
  simpa using hne

theorem position_of_getElem? (hnodup : l.Nodup) (h : l[p]? = some e) :
    position l e = some p := by
  obtain ⟨hp, rfl⟩ := List.getElem?_eq_some_iff.mp h
  exact position_getElem hnodup hp

/-! ## Turns -/

/-- The position whose turn is next: the one after, or the first one for what
is not in the list. -/
def turn (l : List α) (e : α) : ℕ :=
  match position l e with
  | none => 0
  | some p => (p + 1) % l.length

theorem turn_lt (hl : l ≠ []) (e : α) : turn l e < l.length := by
  have hpos : 0 < l.length := List.length_pos_iff.mpr hl
  unfold turn
  split
  · exact hpos
  · exact Nat.mod_lt _ hpos

theorem turn_getElem (hnodup : l.Nodup) {i : ℕ} (hi : i < l.length) :
    turn l l[i] = (i + 1) % l.length := by
  simp [turn, position_getElem hnodup hi]

/-- Of two or more members the next one is another one. -/
theorem getElem_turn_ne (h : 2 ≤ l.length) (e : α) (hnodup : l.Nodup) {e' : α}
    (he' : l[turn l e]? = some e') : e' ≠ e := by
  rintro rfl
  have hp := position_of_getElem? hnodup he'
  have hlt : turn l e' < l.length := by
    apply turn_lt
    rintro rfl
    simp at h
  have hturn : turn l e' = (turn l e' + 1) % l.length := by
    conv_lhs => rw [turn, hp]
  rcases Nat.lt_or_ge (turn l e' + 1) l.length with hlt' | hge
  · rw [Nat.mod_eq_of_lt hlt'] at hturn
    omega
  · have heq : turn l e' + 1 = l.length := by omega
    rw [heq, Nat.mod_self] at hturn
    omega

end Positions

/-- The members whose turn comes in `k` turns from position `s` on. -/
def turns (l : List α) (s k : ℕ) : List α :=
  (List.range k).filterMap fun j => l[(s + j) % l.length]?

theorem turns_succ (l : List α) (s k : ℕ) (he : l[s % l.length]? = some e) :
    turns l s (k + 1) = e :: turns l ((s + 1) % l.length) k := by
  have hshift : ∀ j, (s + (j + 1)) % l.length =
      ((s + 1) % l.length + j) % l.length := by
    intro j
    rw [Nat.mod_add_mod]
    congr 1
    omega
  rw [turns, List.range_succ_eq_map, List.filterMap_cons, Nat.add_zero, he,
    List.filterMap_map]
  refine congrArg (e :: ·) (List.filterMap_congr fun j _ => ?_)
  exact congrArg (l[·]?) (hshift j)

/-- As many turns as the list has members visit each of them once. -/
theorem turns_length_perm (l : List α) (s : ℕ) :
    (turns l s l.length).Perm l := by
  have heq : turns l s l.length = l.rotate s := by
    have hmap : turns l s l.length =
        (List.range l.length).filterMap fun j => (l.rotate s)[j]? := by
      apply List.filterMap_congr
      intro j hj
      have hj' : j < l.length := List.mem_range.mp hj
      have hpos : 0 < l.length := by omega
      rw [List.getElem?_rotate hj', Nat.add_comm s j]
    rw [hmap]
    have hlen : l.length = (l.rotate s).length := (List.length_rotate ..).symm
    rw [hlen]
    generalize l.rotate s = r
    clear hmap hlen
    induction r with
    | nil => rfl
    | cons a r ih =>
      rw [List.length_cons, List.range_succ_eq_map, List.filterMap_cons]
      simpa [List.filterMap_map, Function.comp_def] using ih
  rw [heq]
  exact List.rotate_perm l s

/-! ## What lies behind -/

/-- The `d` members behind position `p` are among those tried. -/
def Behind (l : List α) (p d : ℕ) (tried : List α) : Prop :=
  ∀ j, l.length - d ≤ j → j < l.length →
    ∀ e, l[(p + j) % l.length]? = some e → e ∈ tried

theorem Behind.none (l : List α) (p : ℕ) (tried : List α) :
    Behind l p 0 tried := by
  intro j hle hlt
  omega

variable {d : ℕ} {tried : List α}

theorem Behind.mono {tried' : List α} (h : Behind l p d tried)
    (hsub : tried ⊆ tried') : Behind l p d tried' :=
  fun j hle hlt e he => hsub (h j hle hlt e he)

/-- A member that has been tried is left behind by the next turn. -/
theorem Behind.advance (h : Behind l p d tried) (he : l[p]? = some e) :
    Behind l ((p + 1) % l.length) (d + 1) (e :: tried) := by
  intro j hle hlt x hx
  have hp : p < l.length := (List.getElem?_eq_some_iff.mp he).1
  rw [Nat.mod_add_mod] at hx
  rcases Nat.lt_or_ge (j + 1) l.length with hlt' | hge
  · have hx' : l[(p + (j + 1)) % l.length]? = some x := by
      rw [← hx]
      congr 2
      omega
    exact List.mem_cons_of_mem _ (h (j + 1) (by omega) hlt' x hx')
  have hwrap : (p + 1 + j) % l.length = p := by
    have hsum : p + 1 + j = p + l.length := by omega
    rw [hsum, Nat.add_mod_right, Nat.mod_eq_of_lt hp]
  rw [hwrap, he] at hx
  cases hx
  exact List.mem_cons_self

/-- With as many members behind as there are, every one has been tried. -/
theorem Behind.all (h : Behind l p d tried) (hd : l.length ≤ d) :
    ∀ e ∈ l, e ∈ tried := by
  intro e he
  obtain ⟨i, hi, rfl⟩ := List.getElem_of_mem he
  let j := (i + (l.length - p % l.length)) % l.length
  have hpos : 0 < l.length := by omega
  have hmod : p % l.length < l.length := Nat.mod_lt _ hpos
  have hj : (p + j) % l.length = i := by
    calc (p + j) % l.length
        = (p % l.length + (i + (l.length - p % l.length))) % l.length := by
          rw [Nat.add_mod_mod, ← Nat.mod_add_mod]
      _ = (i + l.length) % l.length := by
          congr 1
          omega
      _ = i := by rw [Nat.add_mod_right, Nat.mod_eq_of_lt hi]
  refine h j (by omega) (Nat.mod_lt _ hpos) l[i] ?_
  rw [hj]
  exact List.getElem?_eq_getElem hi

end Wanbond.Support
