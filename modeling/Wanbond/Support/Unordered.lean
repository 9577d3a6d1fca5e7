import Mathlib.Data.List.AList
import Mathlib.Data.List.Perm.Basic

/-!
# Loops in any order

A loop over the keys of a map takes them in an order that is not given.  Where
two turns can be exchanged, up to a relation of states and as long as an
invariant holds, every order of the keys comes to related states.
-/

namespace Wanbond.Support

variable {σ κ : Type*}

/-- The turns of a loop can be exchanged, up to `R` and under `I`. -/
structure Unordered (turn : σ → κ → σ) (I : σ → Prop) (R : σ → σ → Prop) :
    Prop where
  refl : ∀ s, R s s
  trans : ∀ s t u, R s t → R t u → R s u
  keep : ∀ s k, I s → I (turn s k)
  congr : ∀ s t k, R s t → R (turn s k) (turn t k)
  swap : ∀ s j k, I s → R (turn (turn s j) k) (turn (turn s k) j)

namespace Unordered

variable {turn : σ → κ → σ} {I : σ → Prop} {R : σ → σ → Prop}

theorem foldl_congr (h : Unordered turn I R) (keys : List κ) :
    ∀ s t, R s t → R (keys.foldl turn s) (keys.foldl turn t) := by
  induction keys with
  | nil => exact fun s t hst => hst
  | cons k _ ih => exact fun s t hst => ih _ _ (h.congr s t k hst)

/-- The order of the keys does not matter. -/
theorem foldl_perm (h : Unordered turn I R) {keys keys' : List κ}
    (hperm : keys.Perm keys') :
    ∀ s t, I s → R s t → R (keys.foldl turn s) (keys'.foldl turn t) := by
  suffices hsame : ∀ s, I s → R (keys.foldl turn s) (keys'.foldl turn s) from
    fun s t hs hst => h.trans _ _ _ (hsame s hs) (h.foldl_congr keys' s t hst)
  induction hperm with
  | nil => exact fun s _ => h.refl s
  | cons k _ ih => exact fun s hs => ih _ (h.keep s k hs)
  | swap j k keys =>
    exact fun s hs => h.foldl_congr keys _ _ (h.swap s k j hs)
  | trans _ _ ih ih' => exact fun s hs => h.trans _ _ _ (ih s hs) (ih' s hs)

end Unordered

/-! ## Loops over the entries of a map -/

section Entries

variable {β : Type*} (lookup : σ → κ → Option β) (chosen : σ → κ → β → Bool)
  (act : σ → κ → β → σ)

/-- A turn acts on the entry of its key, if there is one and it is chosen. -/
def eachEntry (s : σ) (k : κ) : σ :=
  match lookup s k with
  | none => s
  | some b => if chosen s k b then act s k b else s

/-- Acting on one entry leaves the others, and which of them are chosen, and two
entries may be acted on in either order. -/
structure Separate (I : σ → Prop) (R : σ → σ → Prop) : Prop where
  refl : ∀ s, R s s
  trans : ∀ s t u, R s t → R t u → R s u
  keep : ∀ s k b, I s → lookup s k = some b → I (act s k b)
  lookup_congr : ∀ s t k, R s t → lookup s k = lookup t k
  chosen_congr : ∀ s t k b, R s t → chosen s k b = chosen t k b
  act_congr : ∀ s t k b, R s t → R (act s k b) (act t k b)
  lookup_act : ∀ s j k b, j ≠ k → lookup (act s j b) k = lookup s k
  chosen_act : ∀ s j k b b', I s → j ≠ k → lookup s j = some b →
    chosen s j b = true → lookup s k = some b' →
    chosen (act s j b) k b' = chosen s k b'
  comm : ∀ s j k b b', I s → j ≠ k → lookup s j = some b → lookup s k = some b' →
    R (act (act s j b) k b') (act (act s k b') j b)

variable {lookup chosen act} {I : σ → Prop} {R : σ → σ → Prop} {s : σ} {k : κ}
  {b : β}

theorem eachEntry_of_chosen (hk : lookup s k = some b)
    (hb : chosen s k b = true) : eachEntry lookup chosen act s k = act s k b := by
  unfold eachEntry
  rw [hk]
  exact if_pos hb

theorem eachEntry_of_not (h : ∀ b, lookup s k = some b → chosen s k b = false) :
    eachEntry lookup chosen act s k = s := by
  unfold eachEntry
  split
  · rfl
  next b hk => exact if_neg (by simp [h b hk])

namespace Separate

/-- Acts that commute. -/
theorem of_comm (keep : ∀ s k b, I s → lookup s k = some b → I (act s k b))
    (lookup_act : ∀ s j k b, j ≠ k → lookup (act s j b) k = lookup s k)
    (chosen_act : ∀ s j k b b', I s → j ≠ k → lookup s j = some b →
      chosen s j b = true → lookup s k = some b' →
      chosen (act s j b) k b' = chosen s k b')
    (comm : ∀ s j k b b', I s → j ≠ k → lookup s j = some b →
      lookup s k = some b' → act (act s j b) k b' = act (act s k b') j b) :
    Separate lookup chosen act I Eq where
  refl _ := rfl
  trans _ _ _ h h' := h.trans h'
  keep := keep
  lookup_congr _ _ _ h := by rw [h]
  chosen_congr _ _ _ _ h := by rw [h]
  act_congr _ _ _ _ h := by rw [h]
  lookup_act := lookup_act
  chosen_act := chosen_act
  comm := comm

theorem swap (h : Separate lookup chosen act I R) (s : σ) (j k : κ) (hs : I s) :
    R (eachEntry lookup chosen act (eachEntry lookup chosen act s j) k)
      (eachEntry lookup chosen act (eachEntry lookup chosen act s k) j) := by
  by_cases hjk : j = k
  · rw [hjk]
    exact h.refl _
  -- an entry that is chosen still is when the other one has been acted on
  have hafter : ∀ {j k b b'}, j ≠ k → lookup s j = some b →
      chosen s j b = true →
      (lookup (act s j b) k = some b' ∧ chosen (act s j b) k b' = true ↔
        lookup s k = some b' ∧ chosen s k b' = true) := by
    intro j k b b' hjk hj hb
    rw [h.lookup_act s j k b hjk]
    refine and_congr_right fun hk => ?_
    rw [h.chosen_act s j k b b' hs hjk hj hb hk]
  have hidle : ∀ {t : σ} {k : κ},
      (¬∃ b, lookup t k = some b ∧ chosen t k b = true) →
      eachEntry lookup chosen act t k = t := fun hk =>
    eachEntry_of_not fun b hb => by
      by_contra hchosen
      exact hk ⟨b, hb, by simpa using hchosen⟩
  by_cases hj : ∃ b, lookup s j = some b ∧ chosen s j b = true
  · obtain ⟨b, hlj, hcj⟩ := hj
    rw [eachEntry_of_chosen hlj hcj]
    by_cases hk : ∃ b, lookup s k = some b ∧ chosen s k b = true
    · obtain ⟨b', hlk, hck⟩ := hk
      obtain ⟨hlk', hck'⟩ := (hafter hjk hlj hcj).mpr ⟨hlk, hck⟩
      obtain ⟨hlj', hcj'⟩ := (hafter (Ne.symm hjk) hlk hck).mpr ⟨hlj, hcj⟩
      rw [eachEntry_of_chosen hlk hck, eachEntry_of_chosen hlk' hck',
        eachEntry_of_chosen hlj' hcj']
      exact h.comm s j k b b' hs hjk hlj hlk
    have hk' : ¬∃ b', lookup (act s j b) k = some b' ∧
        chosen (act s j b) k b' = true := by
      rintro ⟨b', hb'⟩
      exact hk ⟨b', (hafter hjk hlj hcj).mp hb'⟩
    rw [hidle hk, hidle hk', eachEntry_of_chosen hlj hcj]
    exact h.refl _
  · rw [hidle hj]
    by_cases hk : ∃ b, lookup s k = some b ∧ chosen s k b = true
    · obtain ⟨b', hlk, hck⟩ := hk
      have hj' : ¬∃ b, lookup (act s k b') j = some b ∧
          chosen (act s k b') j b = true := by
        rintro ⟨b, hb⟩
        exact hj ⟨b, (hafter (Ne.symm hjk) hlk hck).mp hb⟩
      rw [eachEntry_of_chosen hlk hck, hidle hj']
      exact h.refl _
    · rw [hidle hk, hidle hj]
      exact h.refl _

theorem unordered (h : Separate lookup chosen act I R) :
    Unordered (eachEntry lookup chosen act) I R where
  refl := h.refl
  trans := h.trans
  keep s k hs := by
    unfold eachEntry
    split
    · exact hs
    next b hk =>
      split
      · exact h.keep s k b hs hk
      · exact hs
  congr s t k hst := by
    unfold eachEntry
    rw [h.lookup_congr s t k hst]
    split
    · exact hst
    next b _ =>
      rw [h.chosen_congr s t k b hst]
      split
      · exact h.act_congr s t k b hst
      · exact hst
  swap := h.swap

end Separate

end Entries

/-- Maps in which the same is found list the same entries, in some order. -/
theorem perm_entries_of_lookup {α β : Type*} [DecidableEq α]
    {s t : AList fun _ : α => β} (h : ∀ k, s.lookup k = t.lookup k) :
    s.entries.Perm t.entries :=
  List.lookup_ext s.nodupKeys t.nodupKeys fun k b => by
    have hk : s.entries.dlookup k = t.entries.dlookup k := h k
    rw [hk]

end Wanbond.Support
