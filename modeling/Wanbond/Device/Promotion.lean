import Wanbond.Device.ExitRuns

/-!
# Exhaustion signals on their way

A controller raises its signal, and the subscriber is called later.  As long as
no path of the controller comes up and egress does not move onto its exit in
between, the call finds the state the raise left: the controller is exhausted,
and the exit has been active all along if it is active now.
-/

namespace Wanbond.Device

open Wanbond.Bond (Time Duration second)
open Wanbond.Config

variable {Addr : Type} {c : HubFailover Addr}

/-! ## Exhausted controllers -/

namespace HubFailover

variable [DecidableEq Addr]

/-- A check that raises leaves the controller exhausted. -/
theorem exhausted_of_raised {now : Time} (h : (c.checkLocked now).raised = true) :
    (c.checkLocked now).ctrl.exhausted = true := by
  obtain ⟨-, hhealth, -⟩ := c.checkLocked_frame now
  have hlatched : ∀ (d : HubFailover Addr) (actions : List (Action Addr)),
      (d.raiseExhaustedLocked actions).ctrl.exhaustedLatched = true := by
    intro d actions
    rw [raiseExhaustedLocked_ctrl]
  have hall : (c.checkLocked now).ctrl.allDownLocked = c.allDownLocked := by
    rw [allDownLocked, allDownLocked, hhealth]
  rw [exhausted, hall]
  rcases c.checkLocked_cases now with ⟨-, heq⟩ | ⟨-, -, heq⟩ | ⟨-, -, heq⟩ |
    ⟨-, hdown, heq⟩ | ⟨-, hdown, -, heq⟩
  · simp [heq] at h
  · simp [heq] at h
  · simp [heq] at h
  · rw [hdown, heq, hlatched]
    rfl
  rw [hdown, heq]
  rw [heq] at h
  dsimp only [advance] at h ⊢
  split
  · rw [hlatched]
    rfl
  · next hshort =>
    rw [if_neg hshort] at h
    cases h

/-- A controller stays exhausted as long as no path of it comes up. -/
theorem exhausted_step (h : c.exhausted = true) (e : Egress.CtrlEvent Addr)
    (hpath : ∀ i state, e = .path i state →
      (c.setPath i state).allDownLocked = true) :
    (c.step e.event).ctrl.exhausted = true := by
  obtain ⟨hlatched, hdown⟩ : c.exhaustedLatched = true ∧
      c.allDownLocked = true := by
    simpa [exhausted] using h
  cases e with
  | path i state =>
    have hall := hpath i state rfl
    change (c.setPath i state).exhausted = true
    rw [exhausted, hall]
    simpa [setPath] using hlatched
  | updateResolution specIdx e now =>
    obtain ⟨_, _, _, _, heq, -⟩ := c.updateResolution_frame specIdx e now
    exact (congrArg exhausted heq).trans h
  | check now =>
    change (c.checkLocked now).ctrl.exhausted = true
    rcases c.checkLocked_cases now with ⟨-, heq⟩ | ⟨-, hup, -⟩ | ⟨-, -, heq⟩ |
      ⟨-, -, heq⟩ | ⟨-, -, -, heq⟩
    · rwa [heq]
    · simp [hdown] at hup
    · rwa [heq]
    · rwa [heq, raiseExhaustedLocked_ctrl]
    rw [heq]
    dsimp only [advance]
    split
    · rwa [raiseExhaustedLocked_ctrl]
    · exact h

end HubFailover

namespace Egress

/-! ## What becomes of controllers and signals -/

theorem setOnExhausted_kept {ctrls : String → Option (HubFailover Addr)}
    {n : String} (h : ctrls n = some c) (name : String) (cb : Option String) :
    ∃ cb', setOnExhausted ctrls name cb n = some (c.setOnExhausted cb') := by
  unfold setOnExhausted
  by_cases hn : n = name
  · subst hn
    exact ⟨cb, by rw [Function.update_self, h]; rfl⟩
  · exact ⟨c.onExhausted, by rw [Function.update_of_ne hn, h]; rfl⟩

/-- Subscriptions apart, the controllers are as they were, and the signals too. -/
def Undisturbed (w w' : Egress Addr) : Prop :=
  (∀ n c, w.ctrls n = some c → ∃ cb, w'.ctrls n = some (c.setOnExhausted cb)) ∧
    w'.pending = w.pending

theorem Undisturbed.refl (w : Egress Addr) : Undisturbed w w :=
  ⟨fun _ c hc => ⟨c.onExhausted, hc⟩, rfl⟩

theorem decided_undisturbed (w : Egress Addr) : Decided (Undisturbed w) where
  switched {w' name _} h _ _ _ := by
    refine ⟨fun n c hc => ?_, h.2⟩
    obtain ⟨_, hcb⟩ := h.1 n c hc
    obtain ⟨_, hcb⟩ := setOnExhausted_kept hcb w'.sel.active none
    obtain ⟨cb, hcb⟩ := setOnExhausted_kept hcb name (some name)
    exact ⟨cb, hcb⟩
  mode h _ := h
  returned h _ := h

variable {late : Cidr → Prop} {w : Egress Addr}

/-- A signal on its way comes from an exhausted controller, its subscriber names
that controller's exit, and the exit is not active if it was not all along. -/
structure SignalOk (w : Egress Addr) (s : Signal) : Prop where
  exhausted : ∃ c, w.ctrls s.ctrl = some c ∧ c.exhausted = true
  callback : ∀ n, s.callback = some n → n = s.ctrl
  fresh : s.recovered = false
  elsewhere : s.elsewhere = true → w.sel.active ≠ s.ctrl

theorem SignalOk.of_undisturbed {w' : Egress Addr} {s : Signal}
    (ok : SignalOk w s) (hctrls : ∀ n c, w.ctrls n = some c →
      ∃ cb, w'.ctrls n = some (c.setOnExhausted cb))
    (hactive : w.sel.active ≠ s.ctrl → w'.sel.active ≠ s.ctrl) :
    SignalOk w' s := by
  obtain ⟨c, hc, hexhausted⟩ := ok.exhausted
  obtain ⟨cb, hcb⟩ := hctrls s.ctrl c hc
  exact ⟨⟨_, hcb, hexhausted⟩, ok.callback, ok.fresh,
    fun h => hactive (ok.elsewhere h)⟩

theorem signalOk_note (h : ∀ s ∈ w.pending, SignalOk w s) :
    ∀ s ∈ w.note.pending, SignalOk w.note s := by
  intro s' hs'
  obtain ⟨s, hs, rfl⟩ := List.mem_map.mp hs'
  have ok := h s hs
  obtain ⟨c, hc, hexhausted⟩ := ok.exhausted
  have hdown : c.allDownLocked = true := by
    have hboth : c.exhaustedLatched = true ∧ c.allDownLocked = true := by
      simpa [HubFailover.exhausted] using hexhausted
    exact hboth.2
  refine ⟨⟨c, hc, hexhausted⟩, ok.callback, ?_, ?_⟩
  · simp [ok.fresh, hc, hdown]
  intro hel
  rcases Bool.or_eq_true_iff.mp hel with hold | hnew
  · exact ok.elsewhere hold
  · simpa [note] using hnew

theorem origin_of_promote {healthy : String → Bool} {ipc : Bool} {now t : Time}
    {origin target : String} (hlog : (w.promote healthy ipc now).log =
      .switched origin target .autoPromotion t :: w.log) :
    w.sel.active = origin := by
  rcases w.promote_cases healthy ipc now with heq | ⟨_, _, -, -, -, heq⟩
  · rw [heq] at hlog
    exact absurd hlog.symm (List.cons_ne_self _ _)
  · rw [heq] at hlog
    cases hlog
    rfl

/-! ## Orderly histories -/

variable [DecidableEq Addr]

/-- No path of a controller comes up, and egress does not move onto its exit,
while a signal of that controller is on its way. -/
def Orderly (w : Egress Addr) (a : Act Addr) : Prop :=
  ∀ s ∈ w.pending,
    (∀ i state c, a = .ctrl s.ctrl (.path i state) →
      w.ctrls s.ctrl = some c → (c.setPath i state).allDownLocked = true) ∧
    (w.sel.active ≠ s.ctrl → (w.act a).sel.active ≠ s.ctrl)

/-- Every act of a history is orderly in the state it finds. -/
def OrderlyRun : Egress Addr → List (Act Addr) → Prop
  | _, [] => True
  | w, a :: acts => w.Orderly a ∧ OrderlyRun (w.step a) acts

/-- The acts that are not events of a controller. -/
theorem signalOk_act (hsel : SelectorOk late w) (ok : ∀ s ∈ w.pending, SignalOk w s)
    {a : Act Addr} (horderly : w.Orderly a) :
    ∀ s ∈ (w.act a).pending, SignalOk (w.act a) s := by
  have hquiet : ∀ w' : Egress Addr, w' = w.act a → Undisturbed w w' →
      ∀ s ∈ w'.pending, SignalOk w' s := by
    rintro w' rfl ⟨hctrls, hpending⟩ s hs
    rw [hpending] at hs
    exact (ok s hs).of_undisturbed hctrls (horderly s hs).2
  cases a with
  | setMode =>
    exact hquiet _ rfl ((decided_undisturbed w).setMode (.refl w) ..)
  | enableRTTSelection => exact hquiet _ rfl (.refl w)
  | evaluateAuto =>
    exact hquiet _ rfl ((decided_undisturbed w).evaluateAuto (.refl w) ..)
  | retry => exact hquiet _ rfl ((decided_undisturbed w).retry (.refl w) ..)
  | ctrl name e =>
    rw [act]
    rcases w.ctrlStep_cases name e with heq | ⟨c, hc, heq⟩
    · rwa [heq]
    rw [heq]
    -- The signals there were, at the controller that moves and at the others.
    have hold : ∀ pending, ∀ s ∈ w.pending, SignalOk { w with
        ctrls := Function.update w.ctrls name (some (c.step e.event).ctrl)
        pending := pending } s := by
      intro pending s hs
      obtain ⟨c', hc', hexhausted⟩ := (ok s hs).exhausted
      refine ⟨?_, (ok s hs).callback, (ok s hs).fresh, (ok s hs).elsewhere⟩
      by_cases hname : s.ctrl = name
      · subst hname
        rw [hc] at hc'
        cases hc'
        refine ⟨_, Function.update_self .., ?_⟩
        apply HubFailover.exhausted_step hexhausted
        intro i state he
        subst he
        exact (horderly s hs).1 i state c rfl hc
      · exact ⟨c', by rw [← hc']; exact Function.update_of_ne hname .., hexhausted⟩
    intro s hs
    cases hraised : (c.step e.event).raised with
    | false =>
      simp only [hraised] at hs
      exact hold _ s hs
    | true =>
      simp only [hraised, if_true] at hs
      rcases List.mem_cons.mp hs with rfl | hs
      · refine ⟨⟨_, Function.update_self .., ?_⟩, by simp, rfl, ?_⟩
        · cases e with
          | path => cases hraised
          | updateResolution specIdx e now =>
            obtain ⟨_, _, _, _, -, hnone⟩ :=
              c.updateResolution_frame specIdx e now
            rw [CtrlEvent.event, HubFailover.step, hnone] at hraised
            cases hraised
          | check => exact HubFailover.exhausted_of_raised hraised
        · intro hel
          simpa using hel
      · exact hold _ s hs
  | fetch i =>
    have hkept : ∀ s ∈ w.pending, SignalOk (w.fetchStep i) s := by
      intro s hs
      rw [fetchStep_cases]
      exact (ok s hs).of_undisturbed
        (fun n c hc => ⟨c.onExhausted, hc⟩) id
    intro s' hs'
    rw [act] at hs' ⊢
    have hpending := hs'
    unfold fetchStep at hpending
    split at hpending
    · next name recovered elsewhere hs =>
      have hmem : (⟨name, none, recovered, elsewhere⟩ : Signal) ∈ w.pending :=
        List.mem_of_getElem? hs
      split at hpending
      · exact hkept s' (List.mem_of_mem_eraseIdx hpending)
      · next cb hcb =>
        rcases List.mem_or_eq_of_mem_set hpending with hin | rfl
        · exact hkept s' hin
        have hone := hkept _ hmem
        refine ⟨hone.exhausted, ?_, hone.fresh, hone.elsewhere⟩
        intro n hn
        cases hn
        -- A subscriber names the exit of the controller it is read from.
        obtain ⟨c, hc, hcb⟩ := Option.bind_eq_some_iff.mp hcb
        rw [hsel.subscribed name c hc] at hcb
        split at hcb
        · exact (Option.some.inj hcb).symm
        · cases hcb
    · exact hkept s' hpending
  | fire i healthy ipc now =>
    rw [act]
    rcases w.fireStep_cases i healthy ipc now with heq |
      ⟨s₀, cb, hs₀, -, heq⟩
    · rwa [heq]
    have hkept : Undisturbed { w with pending := w.pending.eraseIdx i }
        (w.fireStep i healthy ipc now) := by
      rw [heq]
      exact (decided_undisturbed _).onActiveExhausted (.refl _) ..
    intro s hs
    rw [hkept.2] at hs
    have hmem : s ∈ w.pending := List.mem_of_mem_eraseIdx hs
    exact (ok s hmem).of_undisturbed hkept.1 (horderly s hmem).2

theorem signalOk_run (hsel : SelectorOk late w) (ok : ∀ s ∈ w.pending, SignalOk w s)
    {acts : List (Act Addr)} (horderly : w.OrderlyRun acts) :
    ∀ s ∈ (w.run acts).pending, SignalOk (w.run acts) s := by
  induction acts generalizing w with
  | nil => exact ok
  | cons a _ ih =>
    exact ih (w := w.step a) (kept_selectorOk.step hsel a)
      (signalOk_note (signalOk_act hsel ok horderly.1)) horderly.2

/-! ## Promotions -/

/-- In an orderly history egress is promoted away from an exit only while it is
active and its controller is exhausted, and a signal that is stale changes
nothing but the signals. -/
theorem stale_signal_harmless {c : Config} {sel : ExitSelector}
    (hsel : newExitSelector c = some sel)
    {ctrls : String → Option (HubFailover Addr)}
    (hfresh : ∀ n x, ctrls n = some x → x.onExhausted = none) (engine : Table)
    (acts : List (Act Addr))
    (horderly : (enableAutoPromotion sel ctrls engine).OrderlyRun acts)
    (w : Egress Addr) (hw : w = (enableAutoPromotion sel ctrls engine).run acts)
    (a : Act Addr) :
    (∀ origin target t,
      (w.step a).log = .switched origin target .autoPromotion t :: w.log →
      w.sel.active = origin ∧
      ∃ x, w.ctrls origin = some x ∧ x.exhausted = true) ∧
    (∀ i healthy ipc now s, a = .fire i healthy ipc now →
      w.pending[i]? = some s → s.recovered = true ∨ s.elsewhere = true →
      (w.step a).sel = w.sel ∧ (w.step a).ctrls = w.ctrls ∧
      (w.step a).engine = w.engine ∧ (w.step a).log = w.log) := by
  have hboot : SelectorOk (fun _ => True)
      (enableAutoPromotion sel ctrls engine) :=
    selectorOk_boot hsel hfresh fun _ _ _ _ => .inr trivial
  have ok : ∀ s ∈ w.pending, SignalOk w s := by
    rw [hw]
    exact signalOk_run hboot nofun horderly
  refine ⟨?_, ?_⟩
  · intro origin target t hlog
    change (w.act a).log = _ at hlog
    have hquiet : (w.act a).log ≠ w.log := by
      rw [hlog]
      exact List.cons_ne_self _ _
    cases a with
    | setMode mode ipc now =>
      rw [act] at hlog
      rcases w.setMode_cases mode ipc now with heq | ⟨-, heq⟩ | heq |
        ⟨_, -, -, -, heq⟩
      · exact absurd (congrArg log heq) hquiet
      · rw [heq] at hlog
        cases hlog
      · exact absurd (congrArg (·.1.log) heq) hquiet
      · rw [heq] at hlog
        have hmanual : Entry.switched _ _ .manual _ :: w.log = _ := hlog
        cases hmanual
    | enableRTTSelection => exact absurd rfl hquiet
    | evaluateAuto healthy rtt ipc now =>
      rw [act] at hlog
      rcases w.evaluateAuto_cases healthy rtt ipc now with heq |
        ⟨_, _, -, -, -, -, -, heq⟩
      · exact absurd (congrArg log heq) hquiet
      · rw [heq] at hlog
        have hrtt : Entry.switched _ _ .autoRTT _ :: w.log = _ := hlog
        cases hrtt
    | retry =>
      rw [act, retryExhaustedPromotion] at hlog
      split at hlog
      · next hexhausted =>
        obtain rfl := origin_of_promote hlog
        refine ⟨rfl, ?_⟩
        simpa [Option.any_eq_true] using hexhausted
      · exact absurd hlog.symm (List.cons_ne_self _ _)
    | ctrl name e =>
      rw [act] at hlog
      rcases w.ctrlStep_cases name e with heq | ⟨_, _, heq⟩
      · exact absurd (congrArg log heq) hquiet
      · exact absurd (congrArg log heq) hquiet
    | fetch i =>
      exact absurd (congrArg log (w.fetchStep_cases i)) hquiet
    | fire i healthy ipc now =>
      rw [act] at hlog
      rcases w.fireStep_cases i healthy ipc now with heq |
        ⟨s, cb, hs, hcb, heq⟩
      · exact absurd (congrArg log heq) hquiet
      rw [heq, onActiveExhausted] at hlog
      split at hlog
      · exact absurd hlog.symm (List.cons_ne_self _ _)
      · next hactive =>
        obtain rfl := origin_of_promote
          (w := { w with pending := w.pending.eraseIdx i }) hlog
        have hone := ok s (List.mem_of_getElem? hs)
        obtain rfl := hone.callback cb hcb
        rw [not_not] at hactive
        exact ⟨rfl, hactive ▸ hone.exhausted⟩
  · rintro i healthy ipc now s rfl hs hstale
    have hone := ok s (List.mem_of_getElem? hs)
    have helsewhere : w.sel.active ≠ s.ctrl := by
      rcases hstale with hrec | hel
      · rw [hone.fresh] at hrec
        cases hrec
      · exact hone.elsewhere hel
    have hfired : ∃ pending,
        w.fireStep i healthy ipc now = { w with pending := pending } := by
      rcases w.fireStep_cases i healthy ipc now with heq |
        ⟨s', cb, hs', hcb, heq⟩
      · exact ⟨w.pending, heq⟩
      rw [hs] at hs'
      cases hs'
      have hne : w.sel.active ≠ cb := by
        rwa [hone.callback cb hcb]
      exact ⟨_, by rw [heq, onActiveExhausted, if_pos hne]⟩
    obtain ⟨pending, hpending⟩ := hfired
    rw [step, act, hpending]
    exact ⟨rfl, rfl, rfl, rfl⟩

/-- The outage of exit `a` up to the raise of its signal. -/
def raisedAtA : List (Act ℕ) :=
  [.ctrl "a" (.check 0), .ctrl "a" (.check (3 * second))]

/-- The subscriber has been read as well. -/
def fetchedAtA : List (Act ℕ) := raisedAtA ++ [.fetch 0]

theorem pending_raisedAtA :
    (twoEgress.run raisedAtA).pending = [⟨"a", none, false, false⟩] := by
  decide

theorem active_raisedAtA : (twoEgress.run raisedAtA).sel.active = "a" := by
  decide

theorem orderly_of_pending_nil (h : w.pending = []) (a : Act Addr) :
    w.Orderly a := by
  intro s hs
  rw [h] at hs
  cases hs

theorem orderly_fetchedAtA : twoEgress.OrderlyRun fetchedAtA := by
  refine ⟨orderly_of_pending_nil (by decide) _,
    orderly_of_pending_nil (by decide) _, ?_, trivial⟩
  change (twoEgress.run raisedAtA).Orderly (.fetch 0)
  intro s hs
  rw [pending_raisedAtA, List.mem_singleton] at hs
  subst hs
  exact ⟨nofun, fun hne => absurd active_raisedAtA hne⟩

theorem stale_signal_harmless_raised :
    (twoEgress.run fetchedAtA).sel.active = "a" ∧
    ∃ x, (twoEgress.run fetchedAtA).ctrls "a" = some x ∧ x.exhausted = true :=
  (stale_signal_harmless newExitSelector_twoExits twoCtrls_fresh .empty
    fetchedAtA orderly_fetchedAtA _ rfl
    (.fire 0 (fun _ => true) true (4 * second))).1 "a" "b" (4 * second)
    (by decide)

/-- Exit `a` recovers after the raise, or the operator moves to `b` and back to
`a`: either way the call moves egress from `a` to `b`. -/
theorem stale_signal_moves :
    (let w := twoEgress.run (fetchedAtA ++ [.ctrl "a" (.path 0 .up)])
     (w.ctrls "a").all (·.exhausted) = false ∧
     (w.step (.fire 0 (fun _ => true) true (4 * second))).log =
        .switched "a" "b" .autoPromotion (4 * second) :: w.log) ∧
    (let w := twoEgress.run
        (fetchedAtA ++ [.setMode "b" true (4 * second),
          .setMode "a" true (5 * second)])
     w.sel.mode = "a" ∧ w.pending = [⟨"a", some "a", false, true⟩] ∧
     (w.step (.fire 0 (fun _ => true) true (6 * second))).sel.active = "b") := by
  decide

end Egress

end Wanbond.Device
