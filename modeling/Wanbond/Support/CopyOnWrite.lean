import Mathlib.Logic.Function.Basic
import Wanbond.Support.Runs

/-!
# Copy-on-write updates of a shared value

Several threads update one shared value without a lock.  A thread loads the
value, prepares its replacement, possibly with a ticket drawn from a shared
counter, and publishes it by a compare-and-swap.  The swap fails if another
value was published since the load; then the thread starts over.

Published values are told apart by a version, as the program tells them apart by
their address.  A value and the counter satisfy an invariant in every state that
is reached if it is kept by every attempt on the value that it has loaded; and
every change of the shared value is such an attempt on the value just before.
-/

namespace Wanbond.Support.CopyOnWrite

/-- What a thread does with the value it has loaded: it returns, or it publishes
a value, which may contain a ticket. -/
inductive Outcome (α ρ : Type*)
  | finish (result : ρ)
  | publish (next : α) (result : ρ)
  | draw (next : ℕ → α) (result : ρ)

/-- Where a thread is in a call. -/
inductive Phase (α κ ρ : Type*)
  | idle
  | entered (call : κ)
  | loaded (call : κ) (version : ℕ) (old : α)
  | ready (call : κ) (version : ℕ) (old next : α) (result : ρ)
  | returned (call : κ) (result : ρ)

structure System (α κ ρ : Type*) where
  value : α
  version : ℕ
  ticket : ℕ
  threads : ℕ → Phase α κ ρ

/-- A thread moves.  What it reads beside the value, such as the order in which
it iterates a map, is part of the event. -/
inductive Event (κ ω : Type*)
  | start (t : ℕ) (call : κ)
  | load (t : ℕ)
  | prepare (t : ℕ) (read : ω)
  | swap (t : ℕ)

variable {α κ ρ ω : Type*}

def System.set (s : System α κ ρ) (t : ℕ) (phase : Phase α κ ρ) :
    System α κ ρ :=
  { s with threads := Function.update s.threads t phase }

/-- A thread that cannot make the move stays where it is. -/
def step (attempt : κ → ω → α → Outcome α ρ) (s : System α κ ρ) :
    Event κ ω → System α κ ρ
  | .start t call =>
    match s.threads t with
    | .idle => s.set t (.entered call)
    | .returned _ _ => s.set t (.entered call)
    | _ => s
  | .load t =>
    match s.threads t with
    | .entered call => s.set t (.loaded call s.version s.value)
    | _ => s
  | .prepare t read =>
    match s.threads t with
    | .loaded call version old =>
      match attempt call read old with
      | .finish result => s.set t (.returned call result)
      | .publish next result => s.set t (.ready call version old next result)
      | .draw next result =>
        { s.set t (.ready call version old (next (s.ticket + 1)) result)
          with ticket := s.ticket + 1 }
    | _ => s
  | .swap t =>
    match s.threads t with
    | .ready call version _ next result =>
      if version = s.version then
        { s.set t (.returned call result) with
          value := next
          version := s.version + 1 }
      else s.set t (.entered call)
    | _ => s

def run (attempt : κ → ω → α → Outcome α ρ) (s : System α κ ρ)
    (events : List (Event κ ω)) : System α κ ρ :=
  events.foldl (step attempt) s

/-- The event is the successful swap of a call. -/
def Publishes (s : System α κ ρ) (e : Event κ ω) (call : κ) : Prop :=
  ∃ t old next result,
    e = .swap t ∧ s.threads t = .ready call s.version old next result

/-- What a thread has loaded when it prepares meets the condition. -/
def Meets (cond : κ → ω → α → Prop) (s : System α κ ρ) : Event κ ω → Prop
  | .prepare t read =>
    ∀ call version old, s.threads t = .loaded call version old →
      cond call read old
  | _ => True

/-! ## The invariant -/

/-- The attempts keep an invariant of the value and the counter. -/
structure Keeps (attempt : κ → ω → α → Outcome α ρ)
    (cond : κ → ω → α → Prop) (Good : ℕ → α → Prop) : Prop where
  mono : ∀ {n v}, Good n v → Good (n + 1) v
  publish : ∀ {n v call read next result}, Good n v → cond call read v →
    attempt call read v = .publish next result → Good n next
  draw : ∀ {n v call read next result}, Good n v → cond call read v →
    attempt call read v = .draw next result → Good (n + 1) (next (n + 1))

/-- A call makes one value into another, in one attempt. -/
def Effect (attempt : κ → ω → α → Outcome α ρ)
    (cond : κ → ω → α → Prop) (Good : ℕ → α → Prop) (call : κ) (old next : α)
    (result : ρ) : Prop :=
  ∃ read n, Good n old ∧ cond call read old ∧
    (attempt call read old = .publish next result ∨
      ∃ f, attempt call read old = .draw f result ∧ next = f (n + 1))

/-- What a thread holds is right. -/
inductive Sound (attempt : κ → ω → α → Outcome α ρ)
    (cond : κ → ω → α → Prop) (Good : ℕ → α → Prop) (s : System α κ ρ) :
    Phase α κ ρ → Prop
  | idle : Sound attempt cond Good s .idle
  | entered {call : κ} : Sound attempt cond Good s (.entered call)
  | loaded {call : κ} {version : ℕ} {old : α} (hle : version ≤ s.version)
      (hold : version = s.version → old = s.value) (hgood : Good s.ticket old) :
      Sound attempt cond Good s (.loaded call version old)
  | ready {call : κ} {version : ℕ} {old next : α} {result : ρ}
      (hle : version ≤ s.version) (hold : version = s.version → old = s.value)
      (hgood : Good s.ticket next)
      (heffect : Effect attempt cond Good call old next result) :
      Sound attempt cond Good s (.ready call version old next result)
  | finished {call : κ} {result : ρ} {read : ω} {n : ℕ} {old : α}
      (hgood : Good n old) (hcond : cond call read old)
      (hfinish : attempt call read old = .finish result) :
      Sound attempt cond Good s (.returned call result)
  | published {call : κ} {result : ρ} {old next : α}
      (heffect : Effect attempt cond Good call old next result) :
      Sound attempt cond Good s (.returned call result)

structure Consistent (attempt : κ → ω → α → Outcome α ρ)
    (cond : κ → ω → α → Prop) (Good : ℕ → α → Prop) (s : System α κ ρ) :
    Prop where
  value : Good s.ticket s.value
  threads : ∀ t, Sound attempt cond Good s (s.threads t)

variable {attempt : κ → ω → α → Outcome α ρ} {cond : κ → ω → α → Prop}
  {Good : ℕ → α → Prop} {s : System α κ ρ} {e : Event κ ω}

/-- What a thread holds stays right while the version grows with the value, and
the counter keeps what it has vouched for. -/
theorem Sound.later {phase : Phase α κ ρ} {s' : System α κ ρ}
    (h : Sound attempt cond Good s phase) (hversion : s.version ≤ s'.version)
    (hvalue : s'.version = s.version → s'.value = s.value)
    (hticket : ∀ v, Good s.ticket v → Good s'.ticket v) :
    Sound attempt cond Good s' phase := by
  have hsame : ∀ {version : ℕ} {old : α}, version ≤ s.version →
      (version = s.version → old = s.value) → version = s'.version →
      old = s'.value := by
    intro version old hle hold heq
    rw [hvalue (by omega)]
    exact hold (by omega)
  cases h with
  | idle => exact .idle
  | entered => exact .entered
  | loaded hle hold hgood =>
    exact .loaded (hle.trans hversion) (hsame hle hold) (hticket _ hgood)
  | ready hle hold hgood heffect =>
    exact .ready (hle.trans hversion) (hsame hle hold) (hticket _ hgood)
      heffect
  | finished hgood hcond hfinish => exact .finished hgood hcond hfinish
  | published heffect => exact .published heffect

/-- One thread moves on without touching the shared value. -/
theorem Consistent.set (h : Consistent attempt cond Good s) {t : ℕ}
    {phase : Phase α κ ρ} (hphase : Sound attempt cond Good s phase) :
    Consistent attempt cond Good (s.set t phase) := by
  refine ⟨h.value, fun u => ?_⟩
  by_cases hu : u = t
  · subst hu
    simp only [System.set, Function.update_self]
    exact hphase.later le_rfl (fun _ => rfl) fun _ => id
  · simp only [System.set, Function.update_of_ne hu]
    exact (h.threads u).later le_rfl (fun _ => rfl) fun _ => id

theorem Consistent.step (hkeeps : Keeps attempt cond Good)
    (h : Consistent attempt cond Good s) (hmeets : Meets cond s e) :
    Consistent attempt cond Good (step attempt s e) := by
  cases e with
  | start =>
    simp only [CopyOnWrite.step]
    split
    · exact h.set .entered
    · exact h.set .entered
    · exact h
  | load t =>
    simp only [CopyOnWrite.step]
    split
    · exact h.set (.loaded le_rfl (fun _ => rfl) h.value)
    · exact h
  | prepare t read =>
    simp only [CopyOnWrite.step]
    split
    next call version old hphase =>
      have hcond := hmeets call version old hphase
      have hsound := h.threads t
      rw [hphase] at hsound
      cases hsound with
      | loaded hle hold hgood =>
        split
        next result hout => exact h.set (.finished hgood hcond hout)
        next next' result hout =>
          exact h.set (.ready hle hold (hkeeps.publish hgood hcond hout)
            ⟨read, s.ticket, hgood, hcond, .inl hout⟩)
        next next' result hout =>
          refine ⟨hkeeps.mono h.value, fun u => ?_⟩
          by_cases hu : u = t
          · subst hu
            simp only [System.set, Function.update_self]
            exact .ready hle hold (hkeeps.draw hgood hcond hout)
              ⟨read, s.ticket, hgood, hcond, .inr ⟨next', hout, rfl⟩⟩
          · simp only [System.set, Function.update_of_ne hu]
            exact (h.threads u).later le_rfl (fun _ => rfl)
              fun _ => hkeeps.mono
    · exact h
  | swap t =>
    simp only [CopyOnWrite.step]
    split
    next call version old next' result hphase =>
      have hsound := h.threads t
      rw [hphase] at hsound
      cases hsound with
      | ready _ _ hgood heffect =>
        split_ifs with hversion
        · refine ⟨hgood, fun u => ?_⟩
          by_cases hu : u = t
          · subst hu
            simp only [System.set, Function.update_self]
            exact .published heffect
          · simp only [System.set, Function.update_of_ne hu]
            exact (h.threads u).later (Nat.le_succ _)
              (fun heq => absurd heq (Nat.succ_ne_self _)) fun _ => id
        · exact h.set .entered
    · exact h

/-- The invariant holds at every moment of a run. -/
theorem consistent_run (hkeeps : Keeps attempt cond Good)
    {events : List (Event κ ω)} (h : Consistent attempt cond Good s)
    (hmeets : Along (step attempt) (Meets cond) s events) (k : ℕ) :
    Consistent attempt cond Good (run attempt s (events.take k)) :=
  foldl_take_induction (Nat.zero_le k) h fun _ _ _ _ he hl =>
    hl.step hkeeps (hmeets.getElem? he)

/-! ## Changes of the value -/

/-- The shared value changes only by a successful swap, and then as one attempt
of the call changes the value just before it. -/
theorem Consistent.value_step (h : Consistent attempt cond Good s) :
    (∃ call result, Publishes s e call ∧
        Effect attempt cond Good call s.value (CopyOnWrite.step attempt s e).value
          result) ∨
      (CopyOnWrite.step attempt s e).value = s.value ∧
        ∀ call, ¬ Publishes s e call := by
  cases e with
  | start | load t =>
    refine .inr ⟨?_, fun call' ⟨_, _, _, _, h, _⟩ => nomatch h⟩
    simp only [CopyOnWrite.step]
    split <;> rfl
  | prepare =>
    refine .inr ⟨?_, fun call' ⟨_, _, _, _, h, _⟩ => nomatch h⟩
    simp only [CopyOnWrite.step]
    split
    · split <;> rfl
    · rfl
  | swap t =>
    by_cases hpub : ∃ call, Publishes s (.swap t : Event κ ω) call
    · obtain ⟨call, t', old, next', result, heq, hphase⟩ := hpub
      cases heq
      have hsound := h.threads t
      rw [hphase] at hsound
      cases hsound with
      | ready _ hold _ heffect =>
        refine .inl ⟨call, result, ⟨t, old, next', result, rfl, hphase⟩, ?_⟩
        simp only [CopyOnWrite.step, hphase, if_true]
        exact hold rfl ▸ heffect
    refine .inr ⟨?_, fun call hcall => hpub ⟨call, hcall⟩⟩
    simp only [CopyOnWrite.step]
    split
    next call version old next' result hphase =>
      split_ifs with hversion
      · subst hversion
        exact absurd ⟨call, t, old, next', result, rfl, hphase⟩ hpub
      · rfl
    · rfl

/-- A call publishes at an event alone. -/
theorem Publishes.unique {call call' : κ} (h : Publishes s e call)
    (h' : Publishes s e call') : call' = call := by
  obtain ⟨t, old, next, result, rfl, hphase⟩ := h
  obtain ⟨t', old', next', result', heq, hphase'⟩ := h'
  cases heq
  rw [hphase] at hphase'
  cases hphase'
  rfl

end Wanbond.Support.CopyOnWrite
