import Mathlib.Data.Rat.Lemmas
import Mathlib.Tactic.Linarith
import Wanbond.Bond.Network
import Wanbond.Support.Pointwise

/-!
# Reservation of lane capacity

`reserve` hands out the rate of each lane in turns: the real-time class, the
copies of its datagrams, then the small class.  A slot stays balanced through
every turn: what is reserved on its lane and what is still free sum to the
lane's rate.  Each of the lower classes is guaranteed on one lane, whenever a
lane may carry it.
-/

namespace Wanbond.Bond

open Wanbond.Support

theorem PerClass.set_get {α : Type} (v : PerClass α) (c : Class) :
    v.set c (v.get c) = v := by
  cases c <;> rfl

/-! ## The minimum share -/

namespace Lane

variable {p : Lane} {c : Class}

theorem minimumClassShare_le_allowed (hp : p.guaranteed.get c = true) :
    minimumClassShare * p.rate ≤ p.allowed c := by
  have hguarantee : ∀ rate, minimumClassShare * p.rate ≤ p.guarantee c rate := by
    intro rate
    unfold guarantee
    rw [if_pos hp]
    exact le_max_right _ _
  unfold allowed
  split
  · unfold minimumShareOf
    rw [if_pos hp]
  · split
    · exact hguarantee _
    · exact (hguarantee _).trans (le_max_right _ _)

theorem eligible_realtime {now : Time} (h : p.eligible c now = true) :
    p.eligible .realtime now = true := by
  unfold eligible at h ⊢
  simp only [Bool.or_eq_true, Bool.and_eq_true, decide_eq_true_eq] at h ⊢
  rcases h with hlive | ⟨-, hsuspect⟩
  · exact Or.inl hlive
  · exact Or.inr ⟨nofun, hsuspect⟩

end Lane

namespace Transport

/-! ## Slots in balance -/

/-- Nothing on the lane is negative, and what is reserved and what is free sum
to the rate of the lane. -/
structure Slot.Balanced (s : Slot) : Prop where
  free : 0 ≤ s.free
  reserved : ∀ c, 0 ≤ s.lane.reserved.get c
  copies : 0 ≤ s.lane.copies
  sum : s.lane.reserved.realtime + s.lane.reserved.small + s.lane.copies +
    s.free = s.lane.rate

/-- Reservation changes nothing else about a lane. -/
def Slot.Kin (s s' : Slot) : Prop :=
  ∃ reserved guaranteed copies elsewhere, s'.lane = { s.lane with
    reserved := reserved
    guaranteed := guaranteed
    copies := copies
    bulkElsewhere := elsewhere }

namespace Slot.Kin

variable {s s' s'' : Slot}

theorem refl (s : Slot) : s.Kin s := ⟨_, _, _, _, rfl⟩

theorem trans (h : s.Kin s') (h' : s'.Kin s'') : s.Kin s'' := by
  obtain ⟨r, g, c, e, hlane⟩ := h
  obtain ⟨r', g', c', e', hlane'⟩ := h'
  refine ⟨r', g', c', e', ?_⟩
  rw [hlane', hlane]

theorem id (h : s.Kin s') : s'.lane.id = s.lane.id := by
  obtain ⟨r, g, c, e, hlane⟩ := h
  rw [hlane]

theorem rate (h : s.Kin s') : s'.lane.rate = s.lane.rate := by
  obtain ⟨r, g, c, e, hlane⟩ := h
  rw [hlane]

theorem eligible (h : s.Kin s') (c : Class) (now : Time) :
    s'.lane.eligible c now = s.lane.eligible c now := by
  obtain ⟨r, g, d, e, hlane⟩ := h
  rw [hlane]
  rfl

end Slot.Kin

/-! ## One class -/

/-- A part of what is free on the lane is reserved for the class. -/
def Slot.Assigned (c : Class) (s s' : Slot) : Prop :=
  ∃ r, 0 ≤ r ∧ r ≤ s.free ∧ s' =
    { lane := { s.lane with reserved := s.lane.reserved.set c r }
      free := s.free - r }

namespace Slot.Assigned

variable {c : Class} {s s' : Slot}

theorem kin (h : s.Assigned c s') : s.Kin s' := by
  obtain ⟨r, -, -, rfl⟩ := h
  exact ⟨_, _, _, _, rfl⟩

theorem balanced (h : s.Assigned c s') (hc : c ≠ .bulk)
    (hclear : s.lane.reserved.get c = 0) (hs : s.Balanced) : s'.Balanced := by
  obtain ⟨r, hr, hfree, rfl⟩ := h
  have hsum := hs.sum
  refine ⟨sub_nonneg.mpr hfree, fun d => ?_, hs.copies, ?_⟩
  · by_cases hd : d = c
    · rwa [hd, PerClass.get_set_self]
    · rw [PerClass.get_set_ne _ hd]
      exact hs.reserved d
  cases c with
  | realtime =>
    change s.lane.reserved.realtime = 0 at hclear
    show r + s.lane.reserved.small + s.lane.copies + (s.free - r) = _
    linarith
  | small =>
    change s.lane.reserved.small = 0 at hclear
    show s.lane.reserved.realtime + r + s.lane.copies + (s.free - r) = _
    linarith
  | bulk => exact absurd rfl hc

theorem reserved_ne (h : s.Assigned c s') {d : Class} (hd : d ≠ c) :
    s'.lane.reserved.get d = s.lane.reserved.get d := by
  obtain ⟨r, -, -, rfl⟩ := h
  exact PerClass.get_set_ne _ hd r

theorem guaranteed (h : s.Assigned c s') :
    s'.lane.guaranteed = s.lane.guaranteed := by
  obtain ⟨r, -, -, rfl⟩ := h
  rfl

theorem copies (h : s.Assigned c s') : s'.lane.copies = s.lane.copies := by
  obtain ⟨r, -, -, rfl⟩ := h
  rfl

end Slot.Assigned

section Assign

variable {c : Class} (now : Time) (g : Option ℕ) (bulkWaiting : Bool)

/-- The demand is assigned to the lanes in order, until none is left. -/
theorem assigned_assignClass {slots : List Slot}
    (hslots : ∀ s ∈ slots, s.Balanced ∧ 0 < s.lane.rate ∧
      s.lane.reserved.get c = 0) :
    ∀ (i : ℕ) (need : ℚ), 0 ≤ need →
      List.Forall₂ (Slot.Assigned c) slots
          (assignClass now c g bulkWaiting i need slots) ∧
        ((assignClass now c g bulkWaiting i need slots).map
          (Slot.share c)).sum ≤ need := by
  induction slots with
  | nil => exact fun i need hneed => ⟨.nil, hneed⟩
  | cons s slots ih =>
    intro i need hneed
    obtain ⟨hs, hrate, hclear⟩ := hslots s List.mem_cons_self
    have htail := ih fun s hs => hslots s (List.mem_cons_of_mem _ hs)
    dsimp only [assignClass]
    split
    · obtain ⟨hrest, hsum⟩ := htail (i + 1) need hneed
      refine ⟨.cons ⟨0, le_rfl, hs.free, ?_⟩ hrest, ?_⟩
      · rw [← hclear, PerClass.set_get, hclear, sub_zero]
      · rwa [List.map_cons, List.sum_cons, Slot.share, hclear, zero_add]
    set room := if g = some i then
      s.free - classesBelow c * minimumClassShare * s.lane.rate else s.free
      with hroom
    set room' := if c = .small ∧ bulkWaiting ∧ !s.lane.realtimeLane then
      min room (smallClassShare * s.free) else room with hroom'
    have hbelow : 0 ≤ classesBelow c * minimumClassShare * s.lane.rate := by
      have hshare : (0 : ℚ) ≤ minimumClassShare := by
        unfold minimumClassShare
        norm_num
      have hclasses : (0 : ℚ) ≤ classesBelow c := by
        cases c <;> norm_num [classesBelow]
      positivity
    have hfree : room ≤ s.free := by
      rw [hroom]
      split
      · linarith
      · exact le_rfl
    have hfree' : room' ≤ s.free := by
      rw [hroom']
      split
      · exact (min_le_left _ _).trans hfree
      · exact hfree
    have hr : 0 ≤ max 0 (min need room') := le_max_left _ _
    have hrfree : max 0 (min need room') ≤ s.free :=
      max_le hs.free ((min_le_right _ _).trans hfree')
    have hrneed : max 0 (min need room') ≤ need :=
      max_le hneed (min_le_left _ _)
    obtain ⟨hrest, hsum⟩ := htail (i + 1) _ (sub_nonneg.mpr hrneed)
    refine ⟨.cons ⟨_, hr, hrfree, rfl⟩ hrest, ?_⟩
    rw [List.map_cons, List.sum_cons, Slot.share, PerClass.get_set_self]
    linarith

end Assign

/-! ## The guarantor -/

section Guarantee

variable {now : Time} {c next : Class}

variable {s : Slot}

theorem guarantorTurn_eligible (c : Class) (state : ℚ × Option (ℕ × ℚ)) (i : ℕ)
    (h : s.lane.eligible next now = true) :
    ∃ best, (guarantorTurn now c next state (s, i)).2 = some best ∧
      (best.1 = i ∨ state.2 = some best) := by
  obtain ⟨need, best⟩ := state
  dsimp only [guarantorTurn]
  rw [if_pos h]
  cases best with
  | none => exact ⟨_, rfl, Or.inl rfl⟩
  | some best =>
    obtain ⟨j, most⟩ := best
    dsimp only
    split
    · exact ⟨_, rfl, Or.inl rfl⟩
    · exact ⟨_, rfl, Or.inr rfl⟩

theorem guarantorTurn_not_eligible (c : Class) (state : ℚ × Option (ℕ × ℚ))
    (i : ℕ) (h : ¬s.lane.eligible next now = true) :
    (guarantorTurn now c next state (s, i)).2 = state.2 := by
  dsimp only [guarantorTurn]
  rw [if_neg h]

/-- The search ends with a lane that may carry the class, if it saw one. -/
theorem guarantorTurns (slots : List Slot) :
    ∀ (n : ℕ) (state : ℚ × Option (ℕ × ℚ)),
      (∀ best, ((slots.zipIdx n).foldl (guarantorTurn now c next) state).2 =
          some best → state.2 = some best ∨ ∃ k s, best.1 = n + k ∧
            slots[k]? = some s ∧ s.lane.eligible next now = true) ∧
        (((slots.zipIdx n).foldl (guarantorTurn now c next) state).2 = none →
          state.2 = none ∧ ∀ s ∈ slots, ¬s.lane.eligible next now = true) := by
  induction slots with
  | nil =>
    exact fun n state => ⟨fun best h => Or.inl h,
      fun h => ⟨h, fun s hs => absurd hs List.not_mem_nil⟩⟩
  | cons s slots ih =>
    intro n state
    rw [List.zipIdx_cons, List.foldl_cons]
    obtain ⟨hsome, hnone⟩ := ih (n + 1) (guarantorTurn now c next state (s, n))
    by_cases hs : s.lane.eligible next now = true
    · obtain ⟨best, hbest, hfrom⟩ := guarantorTurn_eligible c state n hs
      refine ⟨fun best' h => ?_, fun h => ?_⟩
      · rcases hsome best' h with hturn | ⟨k, s', hk, hs', heligible⟩
        · obtain rfl := Option.some.inj (hbest.symm.trans hturn)
          rcases hfrom with hn | hold
          · exact Or.inr ⟨0, s, hn, rfl, hs⟩
          · exact Or.inl hold
        · exact Or.inr ⟨k + 1, s', by omega, hs', heligible⟩
      · rw [(hnone h).1] at hbest
        cases hbest
    have hturn := guarantorTurn_not_eligible c state n hs
    rw [hturn] at hsome hnone
    refine ⟨fun best h => ?_, fun h => ?_⟩
    · rcases hsome best h with hold | ⟨k, s', hk, hs', heligible⟩
      · exact Or.inl hold
      · exact Or.inr ⟨k + 1, s', by omega, hs', heligible⟩
    refine ⟨(hnone h).1, fun s' hs' => ?_⟩
    rcases List.mem_cons.mp hs' with rfl | hs'
    · exact hs
    · exact (hnone h).2 s' hs'

variable {slots : List Slot}

theorem guarantor_eligible {need : ℚ} {i : ℕ}
    (h : guarantor now c next need slots = some i) :
    ∃ s, slots[i]? = some s ∧ s.lane.eligible next now = true := by
  obtain ⟨best, hbest, rfl⟩ := Option.map_eq_some_iff.mp h
  rcases (guarantorTurns (c := c) slots 0 (need, none)).1 best hbest with
    hnone | ⟨k, s, hk, hs, heligible⟩
  · cases hnone
  · rw [Nat.zero_add] at hk
    exact ⟨s, by rw [hk]; exact hs, heligible⟩

theorem guarantor_none {need : ℚ} (h : guarantor now c next need slots = none) :
    ∀ s ∈ slots, ¬s.lane.eligible next now = true :=
  ((guarantorTurns (c := c) slots 0 (need, none)).2
    (Option.map_eq_none_iff.mp h)).2

/-- Only the guarantor guarantees the class. -/
theorem filter_guaranteeNext {i : ℕ}
    (hnone : ∀ s ∈ slots, s.lane.guaranteed.get next = false)
    (hs : slots[i]? = some s) :
    (guaranteeNext next (some i) slots).filter
        (fun s => s.lane.guaranteed.get next) =
      [{ s with lane := { s.lane with
        guaranteed := s.lane.guaranteed.set next true } }] := by
  induction slots generalizing i with
  | nil => cases hs
  | cons x slots ih =>
    have hrest : ∀ s ∈ slots, s.lane.guaranteed.get next = false :=
      fun s hs => hnone s (List.mem_cons_of_mem _ hs)
    have hx := hnone x List.mem_cons_self
    cases i with
    | zero =>
      obtain rfl : x = s := Option.some.inj hs
      show List.filter _ (_ :: slots) = _
      rw [List.filter_cons_of_pos (by simp),
        List.filter_eq_nil_iff.mpr fun s hs => by simp [hrest s hs]]
    | succ i =>
      have htail := ih hrest (i := i) hs
      show List.filter _ (x :: guaranteeNext next (some i) slots) = _
      rw [List.filter_cons_of_neg (by simp [hx]), htail]

end Guarantee

/-! ## The turn of a class -/

/-- What the turn of class `c` may do to a lane, with `next` guaranteed. -/
structure Slot.Turned (c next : Class) (s s' : Slot) : Prop where
  kin : s.Kin s'
  reserved : ∀ d, d ≠ c → s'.lane.reserved.get d = s.lane.reserved.get d
  guaranteed : ∀ d, d ≠ next → s'.lane.guaranteed.get d = s.lane.guaranteed.get d
  copies : s'.lane.copies = s.lane.copies
  balanced : s'.Balanced

/-- Guaranteeing a class changes nothing else. -/
def Slot.Marked (next : Class) (s s' : Slot) : Prop :=
  s' = s ∨ s' = { s with lane := { s.lane with
    guaranteed := s.lane.guaranteed.set next true } }

section Turn

variable {now : Time} {c next : Class}

theorem marked_guaranteeNext {n : Class} (g : Option ℕ) (slots : List Slot) :
    List.Forall₂ (Slot.Marked n) slots (guaranteeNext n g slots) := by
  cases g with
  | none => exact List.forall₂_same.mpr fun s _ => Or.inl rfl
  | some i =>
    induction slots generalizing i with
    | nil => cases i <;> exact List.Forall₂.nil
    | cons s _ ih =>
      cases i with
      | zero =>
        exact .cons (Or.inr rfl) (List.forall₂_same.mpr fun s _ => Or.inl rfl)
      | succ i => exact .cons (Or.inl rfl) (ih i)

theorem Slot.Assigned.turned {s m s' : Slot} (h : s.Assigned c m)
    (hmark : m.Marked next s') (hc : c ≠ .bulk)
    (hclear : s.lane.reserved.get c = 0) (hs : s.Balanced) :
    Slot.Turned c next s s' := by
  have hm := h.balanced hc hclear hs
  rcases hmark with rfl | rfl
  · exact ⟨h.kin, fun d => h.reserved_ne, fun d _ => by rw [h.guaranteed],
      h.copies, hm⟩
  · refine ⟨h.kin.trans ⟨_, _, _, _, rfl⟩, fun d => h.reserved_ne, fun d hd => ?_,
      h.copies, hm.free, hm.reserved, hm.copies, hm.sum⟩
    rw [PerClass.get_set_ne _ hd, h.guaranteed]

variable {demand : ℚ} (bulkWaiting : Bool) (slots : List Slot)

/-- The turn of a class: the lanes stay in balance, no more than the demand and
its headroom is reserved, and one lane guarantees the next class if a lane may
carry it. -/
theorem turned_reserveClass (now : Time) (next : Class) (hc : c ≠ .bulk)
    (hdemand : 0 ≤ demand)
    (hslots : ∀ s ∈ slots, s.Balanced ∧ 0 < s.lane.rate ∧
      s.lane.reserved.get c = 0 ∧ s.lane.guaranteed.get next = false) :
    List.Forall₂ (Slot.Turned c next) slots
        (reserveClass now c next demand bulkWaiting slots) ∧
      ((reserveClass now c next demand bulkWaiting slots).map
        (Slot.share c)).sum ≤ reservationHeadroom * demand ∧
      ((∃ s ∈ slots, s.lane.eligible next now = true) →
        ∃ s', (reserveClass now c next demand bulkWaiting slots).filter
            (fun s => s.lane.guaranteed.get next) = [s'] ∧
          s'.lane.eligible next now = true) := by
  have hneed : 0 ≤ reservationHeadroom * demand := by
    unfold reservationHeadroom
    linarith
  dsimp only [reserveClass]
  obtain ⟨hassigned, hsum⟩ := assigned_assignClass now
    (guarantor now c next (reservationHeadroom * demand) slots) bulkWaiting
    (fun s hs => ⟨(hslots s hs).1, (hslots s hs).2.1, (hslots s hs).2.2.1⟩)
    0 _ hneed
  have hmarked := marked_guaranteeNext (n := next)
    (guarantor now c next (reservationHeadroom * demand) slots)
    (assignClass now c (guarantor now c next (reservationHeadroom * demand) slots)
      bulkWaiting 0 (reservationHeadroom * demand) slots)
  refine ⟨Pointwise.trans (fun s hs m s' h hmark => ?_) hassigned hmarked, ?_,
    fun hsome => ?_⟩
  · exact h.turned hmark hc (hslots s hs).2.2.1 (hslots s hs).1
  · have hshare := Pointwise.map_eq (f := Slot.share c) (fun m s' hm => by
      rcases hm with rfl | rfl
      · rfl
      · rfl) hmarked
    rwa [hshare]
  cases hg : guarantor now c next (reservationHeadroom * demand) slots with
  | none =>
    obtain ⟨s, hs, heligible⟩ := hsome
    exact absurd heligible (guarantor_none hg s hs)
  | some i =>
    rw [hg] at hassigned
    obtain ⟨s, hs, heligible⟩ := guarantor_eligible hg
    obtain ⟨m, hm, hsm⟩ := Pointwise.getElem? hassigned hs
    refine ⟨_, filter_guaranteeNext (fun m hm => ?_) hm, ?_⟩
    · obtain ⟨s, hs, hsm⟩ := Pointwise.of_mem hassigned hm
      rw [hsm.guaranteed]
      exact (hslots s hs).2.2.2
    · exact (hsm.kin.eligible next now).trans heligible

end Turn

/-! ## Copies -/

/-- Copies take a part of what is free, and whether bulk keeps off the lane is
noted. -/
structure Slot.Spared (s s' : Slot) : Prop where
  kin : s.Kin s'
  reserved : s'.lane.reserved = s.lane.reserved
  guaranteed : s'.lane.guaranteed = s.lane.guaranteed
  balanced : s'.Balanced

section Copies

variable (slots : List Slot)

theorem spared_reserveCopies (budget : ℚ) (now : Time)
    (hslots : ∀ s ∈ slots, s.Balanced ∧ s.lane.copies = 0) :
    List.Forall₂ Slot.Spared slots (reserveCopies budget now slots) := by
  have hreserved : ∀ s ∈ slots, 0 ≤ s.share .realtime :=
    fun s hs => (hslots s hs).1.reserved .realtime
  dsimp only [reserveCopies]
  split
  · exact List.forall₂_same.mpr fun s hs =>
      ⟨.refl s, rfl, rfl, (hslots s hs).1⟩
  set originals := (slots.map (Slot.share .realtime)).sum
  set isSuspect : Slot → Bool := fun s => decide (s.lane.liveness now = .suspect)
  set suspect := ((slots.filter isSuspect).map (Slot.share .realtime)).sum
    with hsuspect
  have hterms : ∀ x ∈ (slots.filter isSuspect).map (Slot.share .realtime),
      0 ≤ x := by
    intro x hx
    obtain ⟨s, hs, rfl⟩ := List.mem_map.mp hx
    exact hreserved s (List.mem_filter.mp hs).1
  -- what suspect lanes carry is at least what one of them carries
  have hforced : ∀ s ∈ slots, 0 ≤ if isSuspect s then
      suspect - s.share .realtime else suspect := by
    intro s hs
    split
    next h =>
      exact sub_nonneg.mpr (List.single_le_sum hterms _
        (List.mem_map_of_mem (List.mem_filter.mpr ⟨hs, h⟩)))
    next => exact List.sum_nonneg hterms
  rw [List.forall₂_map_right_iff]
  refine List.forall₂_same.mpr fun s hs => ⟨⟨_, _, _, _, rfl⟩, rfl, rfl, ?_⟩
  obtain ⟨hbalanced, hnone⟩ := hslots s hs
  have hsum := hbalanced.sum
  rw [hnone] at hsum
  refine ⟨sub_nonneg.mpr (min_le_left _ _), hbalanced.reserved,
    le_min hbalanced.free ((hforced s hs).trans (le_max_left _ _)), ?_⟩
  linarith

theorem spared_markBulkElsewhere (now : Time) (hslots : ∀ s ∈ slots, s.Balanced) :
    List.Forall₂ Slot.Spared slots (markBulkElsewhere now slots) := by
  dsimp only [markBulkElsewhere]
  rw [List.forall₂_map_right_iff]
  refine List.forall₂_same.mpr fun s hs => ⟨⟨_, _, _, _, rfl⟩, rfl, rfl, ?_⟩
  obtain ⟨hfree, hreserved, hcopies, hsum⟩ := hslots s hs
  exact ⟨hfree, hreserved, hcopies, hsum⟩

end Copies

/-! ## All turns -/

/-- A lane before any turn. -/
structure Slot.Untouched (s : Slot) : Prop where
  rate : 0 < s.lane.rate
  free : s.free = s.lane.rate
  reserved : s.lane.reserved = .const 0
  guaranteed : s.lane.guaranteed = .const false
  copies : s.lane.copies = 0

/-- A lane between the turns of the two classes. -/
structure Slot.Halfway (s s' : Slot) : Prop where
  kin : s.Kin s'
  balanced : s'.Balanced
  reserved : s'.lane.reserved.get .small = 0
  guaranteed : s'.lane.guaranteed.get .bulk = false

theorem Slot.Untouched.balanced {s : Slot} (h : s.Untouched) : s.Balanced := by
  refine ⟨?_, fun c => ?_, h.copies.ge, ?_⟩
  · rw [h.free]
    exact h.rate.le
  · rw [h.reserved, PerClass.get_const]
  · rw [h.reserved, h.copies, h.free]
    exact by simp [PerClass.const]

section Turns

variable (slots : List Slot)

theorem Slot.Spared.trans {s s' s'' : Slot} (h : s.Spared s')
    (h' : s'.Spared s'') : s.Spared s'' :=
  ⟨h.kin.trans h'.kin, h'.reserved.trans h.reserved,
    h'.guaranteed.trans h.guaranteed, h'.balanced⟩

theorem spared_copies (budget : ℚ) (now : Time)
    (hslots : ∀ s ∈ slots, s.Balanced ∧ s.lane.copies = 0) :
    List.Forall₂ Slot.Spared slots
      (markBulkElsewhere now (reserveCopies budget now slots)) := by
  have hcopies := spared_reserveCopies slots budget now hslots
  have hmark := spared_markBulkElsewhere
    (reserveCopies budget now slots) now fun s hs => by
      obtain ⟨s₀, -, h⟩ := Pointwise.of_mem hcopies hs
      exact h.balanced
  exact Pointwise.trans (fun _ _ _ _ h h' => h.trans h') hcopies hmark

theorem Slot.Turned.halfway {s m s' : Slot} (hs : s.Untouched)
    (h : Slot.Turned .realtime .small s m) (h' : m.Spared s') : s.Halfway s' where
  kin := h.kin.trans h'.kin
  balanced := h'.balanced
  reserved := by
    rw [h'.reserved, h.reserved .small nofun, hs.reserved, PerClass.get_const]
  guaranteed := by
    rw [h'.guaranteed, h.guaranteed .bulk nofun, hs.guaranteed,
      PerClass.get_const]

/-- The lanes after all turns. -/
theorem reserveSlots_spec (budget : ℚ) (now : Time) {realtime small : ℚ}
    (bulkWaiting : Bool) (hrealtime : 0 ≤ realtime) (hsmall : 0 ≤ small)
    (hslots : ∀ s ∈ slots, s.Untouched) :
    List.Forall₂ (fun s s' => s.Kin s' ∧ s'.Balanced) slots
        (reserveSlots budget now realtime small bulkWaiting slots) ∧
      ((reserveSlots budget now realtime small bulkWaiting slots).map
        (Slot.share .realtime)).sum ≤ reservationHeadroom * realtime ∧
      ((reserveSlots budget now realtime small bulkWaiting slots).map
        (Slot.share .small)).sum ≤ reservationHeadroom * small ∧
      ∀ c, c ≠ .realtime → (∃ s ∈ slots, s.lane.eligible c now = true) →
        ∃ s', (reserveSlots budget now realtime small bulkWaiting slots).filter
            (fun s => s.lane.guaranteed.get c) = [s'] ∧
          s'.lane.eligible c now = true := by
  obtain ⟨hfirst, hsum, hguarantee⟩ := turned_reserveClass bulkWaiting slots now
    .small (c := .realtime) nofun hrealtime fun s hs =>
      ⟨(hslots s hs).balanced, (hslots s hs).rate,
        by rw [(hslots s hs).reserved]; rfl, by rw [(hslots s hs).guaranteed]; rfl⟩
  dsimp only [reserveSlots]
  generalize reserveClass now .realtime .small realtime bulkWaiting slots = slots₁
    at hfirst hsum hguarantee ⊢
  have hcopies := spared_copies slots₁ budget now fun s₁ hs₁ => by
    obtain ⟨s, hs, h⟩ := Pointwise.of_mem hfirst hs₁
    exact ⟨h.balanced, h.copies.trans (hslots s hs).copies⟩
  generalize markBulkElsewhere now (reserveCopies budget now slots₁) =
    slots₂ at hcopies ⊢
  have hhalf : List.Forall₂ Slot.Halfway slots slots₂ :=
    Pointwise.trans (fun s hs _ _ h h' => h.halfway (hslots s hs) h') hfirst hcopies
  obtain ⟨hlast, hsum', hguarantee'⟩ := turned_reserveClass bulkWaiting slots₂ now
    .bulk (c := .small) nofun hsmall fun s₂ hs₂ => by
      obtain ⟨s, hs, h⟩ := Pointwise.of_mem hhalf hs₂
      exact ⟨h.balanced, h.kin.rate ▸ (hslots s hs).rate, h.reserved, h.guaranteed⟩
  generalize reserveClass now .small .bulk small bulkWaiting slots₂ = slots₃
    at hlast hsum' hguarantee' ⊢
  -- the second turn leaves what the first one reserved and guaranteed
  have hkept : List.Forall₂ (fun s s' : Slot => s.Kin s' ∧
      s'.share .realtime = s.share .realtime ∧
      s'.lane.guaranteed.get .small = s.lane.guaranteed.get .small) slots₁ slots₃ :=
    Pointwise.trans (fun _ _ _ _ h h' => ⟨h.kin.trans h'.kin,
      (h'.reserved .realtime nofun).trans (congrArg (PerClass.get · .realtime)
        h.reserved),
      (h'.guaranteed .small nofun).trans (congrArg (PerClass.get · .small)
        h.guaranteed)⟩) hcopies hlast
  refine ⟨Pointwise.trans (fun _ _ _ _ h h' => ⟨h.kin.trans h'.kin, h'.balanced⟩)
    hhalf hlast, ?_, hsum', fun c hc hsome => ?_⟩
  · rwa [Pointwise.map_eq (fun _ _ h => h.2.1) hkept]
  cases c with
  | realtime => exact absurd rfl hc
  | small =>
    obtain ⟨s₁, hs₁, heligible⟩ := hguarantee hsome
    obtain ⟨s₃, hs₃, h⟩ := Pointwise.filter_singleton
      (fun _ _ h => h.2.2) hkept hs₁
    exact ⟨s₃, hs₃, (h.1.eligible .small now).trans heligible⟩
  | bulk =>
    obtain ⟨s, hs, heligible⟩ := hsome
    obtain ⟨s₂, hs₂, h⟩ := Pointwise.to_mem hhalf hs
    exact hguarantee' ⟨s₂, hs₂, (h.kin.eligible .bulk now).trans heligible⟩

end Turns

/-! ## `reserve` -/

section Reserve

variable (t : Transport) (now : Time)

theorem copyBudget_clear (bulkWaiting : Bool) :
    ({ t with paths := t.paths.map (clearReservation bulkWaiting) } :
      Transport).copyBudget now = t.copyBudget now := by
  dsimp only [copyBudget, pacingRate]
  rw [List.filter_map, List.map_map]
  rfl

theorem reserve_eq_reserveWithin :
    t.reserve now = t.reserveWithin (t.copyBudget now) now := by
  rw [reserve, copyBudget_clear]

/-- The lanes that take part, before the first turn. -/
def untouchedSlots (t : Transport) (now : Time) : List Slot :=
  (((t.paths.map (clearReservation (decide (t.queue.length > 0)))).filter
    fun p => p.eligible .realtime now).insertionSort
      fun a b => a.latency ≤ b.latency).map fun p => ⟨p, p.rate⟩

/-- The lanes that take part, after the last turn. -/
def servedSlots (t : Transport) (budget : ℚ) (now : Time) : List Slot :=
  reserveSlots budget now (t.demand.realtime.rate now)
    (t.demand.small.rate now) (decide (t.queue.length > 0)) (t.untouchedSlots now)

/-- The lanes that take no part. -/
def idleLanes (t : Transport) (now : Time) : List Lane :=
  (t.paths.map (clearReservation (decide (t.queue.length > 0)))).filter
    fun p => !p.eligible .realtime now

variable {t} (budget : ℚ)

theorem untouched_of_cleared (hrate : ∀ p ∈ t.paths, 0 < p.rate)
    {bulkWaiting : Bool} {p : Lane}
    (hp : p ∈ t.paths.map (clearReservation bulkWaiting)) :
    Slot.Untouched ⟨p, p.rate⟩ := by
  obtain ⟨q, hq, rfl⟩ := List.mem_map.mp hp
  exact ⟨hrate q hq, rfl, rfl, rfl, rfl⟩

theorem untouched_untouchedSlots (hrate : ∀ p ∈ t.paths, 0 < p.rate) :
    ∀ s ∈ t.untouchedSlots now, s.Untouched := by
  intro s hs
  obtain ⟨p, hp, rfl⟩ := List.mem_map.mp hs
  exact untouched_of_cleared hrate
    (List.mem_filter.mp ((List.mem_insertionSort _).mp hp)).1

theorem rate_nonneg (m : RateMeter) : 0 ≤ m.rate now := by
  have hhighest : ∀ (l : List ℚ) (x : ℚ), 0 ≤ x → 0 ≤ l.foldl max x := by
    intro l
    induction l with
    | nil => exact fun x hx => hx
    | cons y l ih => exact fun x hx => ih _ (hx.trans (le_max_left _ _))
  have hbucket : (0 : ℚ) ≤ seconds meterBucket := by
    decide +kernel
  exact div_nonneg (hhighest _ 0 le_rfl) hbucket

/-- The lanes after `reserve`: those of the slots, and the ones that took no
part. -/
theorem perm_reserveWithin (hids : (t.paths.map fun p => p.id).Nodup)
    (hrate : ∀ p ∈ t.paths, 0 < p.rate) :
    (t.reserveWithin budget now).paths.Perm
      ((t.servedSlots budget now).map Slot.lane ++ t.idleLanes now) := by
  obtain ⟨hkin, -⟩ := reserveSlots_spec (t.untouchedSlots now) budget now
    (decide (t.queue.length > 0)) (rate_nonneg now t.demand.realtime)
    (rate_nonneg now t.demand.small) (untouched_untouchedSlots now hrate)
  have hslotIds := Pointwise.map_eq (fun _ _ h => h.1.id) hkin
  have hclearedIds : ((t.paths.map (clearReservation
      (decide (t.queue.length > 0)))).map fun p => p.id).Nodup := by
    rwa [List.map_map]
  have htaken := List.perm_insertionSort (fun a b : Lane => a.latency ≤ b.latency)
    ((t.paths.map (clearReservation (decide (t.queue.length > 0)))).filter
      fun p => p.eligible .realtime now)
  have hperm := Keyed.perm_written Slot.lane hclearedIds htaken
    (hslotIds.trans (List.map_map ..))
  dsimp only [reserveWithin]
  split
  next hempty =>
    have hnone : reserveSlots budget now (t.demand.realtime.rate now)
        (t.demand.small.rate now) (decide (t.queue.length > 0))
        (t.untouchedSlots now) = [] := by
      unfold untouchedSlots
      rw [List.isEmpty_iff.mp hempty]
      rfl
    unfold servedSlots
    rw [hnone] at hperm ⊢
    refine List.Perm.trans (List.Perm.of_eq ?_) hperm
    exact (List.map_id _).symm
  next => exact hperm

theorem exists_untouchedSlot {c : Class} {p : Lane} (hp : p ∈ t.paths)
    (h : p.eligible c now = true) :
    ∃ s ∈ t.untouchedSlots now, s.lane.eligible c now = true := by
  refine ⟨⟨clearReservation (decide (t.queue.length > 0)) p, p.rate⟩,
    List.mem_map.mpr ⟨_, (List.mem_insertionSort _).mpr
      (List.mem_filter.mpr ⟨List.mem_map_of_mem hp, ?_⟩), rfl⟩, h⟩
  exact Lane.eligible_realtime (c := c) h

end Reserve

end Transport

/-- For every budget for copies, `reserve` keeps within the rate of each lane
and within the demand of each small class, and gives each of the lower classes
that a lane may carry its minimum share on exactly one lane. -/
theorem reserve_shares
    (t : Transport) (now : Time) (budget : ℚ)
    (hids : (t.paths.map fun p => p.id).Nodup)
    (hrate : ∀ p ∈ t.paths, 0 < p.rate) :
    t.reserve now = t.reserveWithin (t.copyBudget now) now ∧
      (∀ p ∈ (t.reserveWithin budget now).paths,
        (∀ c, 0 ≤ p.reserved.get c) ∧ 0 ≤ p.copies ∧
          p.reserved.realtime + p.reserved.small + p.copies ≤ p.rate) ∧
      ((t.reserveWithin budget now).paths.map fun p => p.reserved.realtime).sum ≤
        11 / 10 * t.demand.realtime.rate now ∧
      ((t.reserveWithin budget now).paths.map fun p => p.reserved.small).sum ≤
        11 / 10 * t.demand.small.rate now ∧
      ∀ c, c ≠ .realtime → (∃ p ∈ t.paths, p.eligible c now = true) →
        ∃ p, (t.reserveWithin budget now).paths.filter
            (fun p => p.guaranteed.get c) = [p] ∧
          p.eligible c now = true ∧ 5 / 100 * p.rate ≤ p.allowed c := by
  obtain ⟨hslots, hrealtime, hsmall, hguarantee⟩ := Transport.reserveSlots_spec
    (t.untouchedSlots now) budget now (decide (t.queue.length > 0))
    (Transport.rate_nonneg now t.demand.realtime)
    (Transport.rate_nonneg now t.demand.small)
    (Transport.untouched_untouchedSlots now hrate)
  have hperm := Transport.perm_reserveWithin now budget hids hrate
  have hidle : ∀ p ∈ t.idleLanes now, Transport.Slot.Untouched ⟨p, p.rate⟩ :=
    fun p hp => Transport.untouched_of_cleared hrate (List.mem_filter.mp hp).1
  -- a sum over the lanes is a sum over the slots
  have hsum : ∀ c, ((t.reserveWithin budget now).paths.map fun p =>
      p.reserved.get c).sum =
      ((t.servedSlots budget now).map (Transport.Slot.share c)).sum := by
    intro c
    rw [(hperm.map _).sum_eq, List.map_append, List.sum_append, List.map_map]
    have hzero : ((t.idleLanes now).map fun p => p.reserved.get c).sum = 0 := by
      refine List.sum_eq_zero fun x hx => ?_
      obtain ⟨p, hp, rfl⟩ := List.mem_map.mp hx
      rw [(hidle p hp).reserved, PerClass.get_const]
    rw [hzero, add_zero]
    rfl
  refine ⟨t.reserve_eq_reserveWithin now, fun p hp => ?_,
    (hsum .realtime).trans_le hrealtime, (hsum .small).trans_le hsmall,
    fun c hc hsome => ?_⟩
  · obtain ⟨s, rfl, hs⟩ : ∃ s : Transport.Slot, s.lane = p ∧ s.Balanced := by
      rcases List.mem_append.mp (hperm.mem_iff.mp hp) with hp | hp
      · obtain ⟨s, hs, rfl⟩ := List.mem_map.mp hp
        obtain ⟨s₀, -, -, hbalanced⟩ := Pointwise.of_mem hslots hs
        exact ⟨s, rfl, hbalanced⟩
      · exact ⟨_, rfl, (hidle p hp).balanced⟩
    have hfree := hs.free
    have hsum := hs.sum
    exact ⟨hs.reserved, hs.copies, by linarith⟩
  obtain ⟨p, hp, heligible⟩ := hsome
  obtain ⟨s, hs, hs'⟩ := hguarantee c hc
    (Transport.exists_untouchedSlot now hp heligible)
  have hfilter : ((t.reserveWithin budget now).paths.filter fun p =>
      p.guaranteed.get c).Perm [s.lane] := by
    refine (hperm.filter _).trans (List.Perm.of_eq ?_)
    rw [List.filter_append, List.filter_map]
    have hnone : ((t.idleLanes now).filter fun p => p.guaranteed.get c) = [] :=
      List.filter_eq_nil_iff.mpr fun p hp => by
        rw [(hidle p hp).guaranteed, PerClass.get_const]
        exact Bool.false_ne_true
    rw [hnone, List.append_nil]
    exact congrArg (List.map Transport.Slot.lane) hs
  have hlane : s.lane ∈ (t.reserveWithin budget now).paths.filter fun p =>
      p.guaranteed.get c := hfilter.mem_iff.mpr List.mem_cons_self
  exact ⟨s.lane, List.perm_singleton.mp hfilter, hs',
    Lane.minimumClassShare_le_allowed (List.mem_filter.mp hlane).2⟩

/-- Two lanes come up. -/
def twoLanes : List Call :=
  [.path 1 1 (10 * millisecond) second, .path 2 2 (20 * millisecond) second]

theorem reserve_shares_twoLanes :
    ∃ p, ((Transport.run ⟨1, 1⟩ twoLanes).reserve second).paths.filter
        (fun p => p.guaranteed.get .bulk) = [p] ∧
      p.eligible .bulk second = true ∧ 5 / 100 * p.rate ≤ p.allowed .bulk := by
  have hids : ((Transport.run ⟨1, 1⟩ twoLanes).paths.map fun p => p.id).Nodup := by
    decide +kernel
  have hrate : ∀ p ∈ (Transport.run ⟨1, 1⟩ twoLanes).paths, 0 < p.rate := by
    decide +kernel
  have hsome : ∃ p ∈ (Transport.run ⟨1, 1⟩ twoLanes).paths,
      p.eligible .bulk second = true := by
    decide +kernel
  obtain ⟨heq, -, -, -, hshare⟩ := reserve_shares _ second
    ((Transport.run ⟨1, 1⟩ twoLanes).copyBudget second) hids hrate
  rw [heq]
  exact hshare .bulk nofun hsome

end Wanbond.Bond
