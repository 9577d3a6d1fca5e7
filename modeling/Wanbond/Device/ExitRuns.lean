import Wanbond.Device.ExitSelector

/-!
# Histories of the exit selector

What one step and any interleaving of operators, measurements, controllers and
signals keep of the agreement on the active exit between the selector, the
engine and the subscriptions.
-/

namespace Wanbond.Device

open Wanbond.Bond (Time Duration second)
open Wanbond.Config

variable {Addr : Type}

namespace Egress

/-! ## Switches -/

theorem switchLocked_cases (w : Egress Addr) (name : String) (reason : Reason)
    (ipc : Bool) (now : Time) :
    (w.switchLocked name reason ipc now).1 = w ∨
    ∃ target, w.sel.exits.lookup name = some target ∧ name ≠ w.sel.active ∧
      ipc = true ∧
      w.switchLocked name reason ipc now =
        (w.switched name target reason now, none) := by
  unfold switchLocked
  cases hlookup : w.sel.exits.lookup name with
  | none => exact .inl rfl
  | some target =>
    dsimp only
    split
    · exact .inl rfl
    next hne =>
    split
    · exact .inl rfl
    next hipc =>
    exact .inr ⟨target, rfl, hne, by simpa using hipc, rfl⟩

theorem promote_cases (w : Egress Addr) (healthy : String → Bool) (ipc : Bool)
    (now : Time) :
    w.promote healthy ipc now = w ∨
    ∃ name target, w.sel.exits.lookup name = some target ∧
      name ≠ w.sel.active ∧ ipc = true ∧
      w.promote healthy ipc now = w.switched name target .autoPromotion now := by
  unfold promote
  cases w.firstHealthyStandbyLocked healthy with
  | none => exact .inl rfl
  | some name =>
    rcases w.switchLocked_cases name .autoPromotion ipc now with heq |
      ⟨target, hlookup, hne, hipc, heq⟩
    · exact .inl heq
    · exact .inr ⟨name, target, hlookup, hne, hipc, congrArg Prod.fst heq⟩

/-- A measurement does nothing, or switches in `auto` mode after the
cooldown. -/
theorem evaluateAuto_cases (w : Egress Addr) (healthy : String → Bool)
    (rtt : String → Option Duration) (ipc : Bool) (now : Time) :
    w.evaluateAuto healthy rtt ipc now = w ∨
    ∃ name target, w.sel.exits.lookup name = some target ∧
      name ≠ w.sel.active ∧ ipc = true ∧ w.sel.mode = "auto" ∧
      (∀ t, w.sel.lastSwitch = some t → autoExitCooldown ≤ now - t) ∧
      w.evaluateAuto healthy rtt ipc now =
        w.switched name target .autoRTT now := by
  unfold evaluateAuto
  split
  · exact .inl rfl
  next hwired =>
  split
  · exact .inl rfl
  next hcool =>
  split
  · exact .inl rfl
  next name _ _ =>
  split
  · exact .inl rfl
  rcases w.switchLocked_cases name .autoRTT ipc now with heq |
    ⟨target, hlookup, hne, hipc, heq⟩
  · exact .inl heq
  refine .inr ⟨name, target, hlookup, hne, hipc, ?_, ?_,
    congrArg Prod.fst heq⟩
  · by_contra hmode
    exact hwired (.inl hmode)
  · intro t ht
    simpa [ht] using hcool

/-- A request is refused and changes nothing, keeps the mode, returns to
`auto`, fixes the exit that is active, or switches to the one it names. -/
theorem setMode_cases (w : Egress Addr) (mode : String) (ipc : Bool)
    (now : Time) :
    (w.setMode mode ipc now).1 = w ∨
    (mode = "auto" ∧ w.setMode mode ipc now =
      ({ w with
          sel := { w.sel with mode := mode, lastSwitch := none }
          log := .returned :: w.log }, none)) ∨
    (w.setMode mode ipc now =
      ({ w with sel := { w.sel with mode := mode } }, none)) ∨
    ∃ target, w.sel.exits.lookup mode = some target ∧ mode ≠ w.sel.active ∧
      ipc = true ∧ w.setMode mode ipc now =
        ({ w.switched mode target .manual now with
            sel := { (w.switched mode target .manual now).sel with
              mode := mode } }, none) := by
  unfold setMode
  split
  · next hauto =>
    split
    · exact .inl rfl
    · exact .inr (.inl ⟨hauto, rfl⟩)
  split
  · exact .inl rfl
  rcases w.switchLocked_cases mode .manual ipc now with heq |
    ⟨target, hlookup, hne, hipc, heq⟩
  · cases hres : w.switchLocked mode .manual ipc now with
    | mk w' err =>
      rw [hres] at heq
      cases err with
      | some => exact .inl rfl
      | none =>
        subst heq
        exact .inr (.inr (.inl rfl))
  · rw [heq]
    exact .inr (.inr (.inr ⟨target, hlookup, hne, hipc, rfl⟩))

/-! ## Decisions -/

/-- The property is kept by every decision about egress. -/
structure Decided (P : Egress Addr → Prop) : Prop where
  switched {w : Egress Addr} {name : String} {target : ExitPeer} :
    P w → w.sel.exits.lookup name = some target →
    ∀ reason now, P (w.switched name target reason now)
  mode {w : Egress Addr} : P w →
    ∀ mode, P { w with sel := { w.sel with mode := mode } }
  returned {w : Egress Addr} : P w → ∀ mode, P { w with
    sel := { w.sel with mode := mode, lastSwitch := none }
    log := .returned :: w.log }

namespace Decided

variable {P : Egress Addr → Prop} (h : Decided P) {w : Egress Addr} (ok : P w)
include h ok

theorem setMode (mode : String) (ipc : Bool) (now : Time) :
    P (w.setMode mode ipc now).1 := by
  rcases w.setMode_cases mode ipc now with heq | ⟨-, heq⟩ | heq |
    ⟨target, hlookup, -, -, heq⟩
  · rwa [heq]
  · rw [heq]
    exact h.returned ok mode
  · rw [heq]
    exact h.mode ok mode
  · rw [heq]
    exact h.mode (h.switched ok hlookup _ _) mode

theorem evaluateAuto (healthy : String → Bool) (rtt : String → Option Duration)
    (ipc : Bool) (now : Time) : P (w.evaluateAuto healthy rtt ipc now) := by
  rcases w.evaluateAuto_cases healthy rtt ipc now with heq |
    ⟨name, target, hlookup, -, -, -, -, heq⟩
  · rwa [heq]
  · rw [heq]
    exact h.switched ok hlookup _ _

theorem promote (healthy : String → Bool) (ipc : Bool) (now : Time) :
    P (w.promote healthy ipc now) := by
  rcases w.promote_cases healthy ipc now with heq |
    ⟨name, target, hlookup, -, -, heq⟩
  · rwa [heq]
  · rw [heq]
    exact h.switched ok hlookup _ _

theorem retry (healthy : String → Bool) (ipc : Bool) (now : Time) :
    P (w.retryExhaustedPromotion healthy ipc now) := by
  rw [retryExhaustedPromotion]
  split
  · exact h.promote ok healthy ipc now
  · exact ok

theorem onActiveExhausted (cb : String) (healthy : String → Bool) (ipc : Bool)
    (now : Time) : P (w.onActiveExhausted cb healthy ipc now) := by
  rw [Egress.onActiveExhausted]
  split
  · exact ok
  · exact h.promote ok healthy ipc now

end Decided

/-! ## Agreement on the active exit -/

/-- The cooldown runs from the newest switch, unless the operator has returned
to `auto` since or there has been none. -/
inductive Rested : Option Time → List Entry → Prop
  | fresh : Rested none []
  | returned (log : List Entry) : Rested none (.returned :: log)
  | switched (origin target : String) (reason : Reason) (t : Time)
      (log : List Entry) :
      Rested (some t) (.switched origin target reason t :: log)

/-- In the engine the halves of the active exit belong to it, up to those in
`late` before the first switch, and its controller alone has a subscriber, which
names it. -/
structure SelectorOk (late : Cidr → Prop) (w : Egress Addr) : Prop where
  granted : ∃ p, w.sel.exits.lookup w.sel.active = some p ∧ ∀ s ∈ p.splits,
    w.engine s.masked = some p.publicKeyHex ∨
      (∀ e ∈ w.log, e = .returned) ∧ late s.masked
  subscribed : ∀ n c, w.ctrls n = some c →
    c.onExhausted = if n = w.sel.active then some n else none
  rested : Rested w.sel.lastSwitch w.log

variable {late : Cidr → Prop} {w : Egress Addr}

theorem setOnExhausted_some {ctrls : String → Option (HubFailover Addr)}
    {name : String} {cb : Option String} {n : String} {c : HubFailover Addr}
    (h : setOnExhausted ctrls name cb n = some c) :
    (n = name ∧ c.onExhausted = cb) ∨ (n ≠ name ∧ ctrls n = some c) := by
  unfold setOnExhausted at h
  by_cases hn : n = name
  · subst hn
    rw [Function.update_self] at h
    obtain ⟨c', -, rfl⟩ := Option.map_eq_some_iff.mp h
    exact .inl ⟨rfl, rfl⟩
  · rw [Function.update_of_ne hn] at h
    exact .inr ⟨hn, h⟩

theorem selectorOk_switched {w : Egress Addr} {name : String}
    {target : ExitPeer} (ok : SelectorOk late w)
    (hlookup : w.sel.exits.lookup name = some target) (reason : Reason)
    (now : Time) : SelectorOk late (w.switched name target reason now) := by
  refine ⟨⟨target, hlookup, fun s hs => .inl ?_⟩, ?_, .switched ..⟩
  · change w.engine.apply _ s.masked = _
    rw [Table.apply_eq, if_pos (List.mem_map_of_mem hs)]
  intro n c hc
  change c.onExhausted = if n = name then some n else none
  rcases setOnExhausted_some hc with ⟨rfl, hcb⟩ | ⟨hne, hc⟩
  · simp [hcb]
  rw [if_neg hne]
  rcases setOnExhausted_some hc with ⟨-, hcb⟩ | ⟨hold, hc⟩
  · exact hcb
  · rw [ok.subscribed n c hc, if_neg hold]

theorem fetchStep_cases (w : Egress Addr) (i : ℕ) :
    w.fetchStep i = { w with pending := (w.fetchStep i).pending } := by
  unfold fetchStep
  split
  · split <;> rfl
  · rfl

theorem fireStep_cases (w : Egress Addr) (i : ℕ) (healthy : String → Bool)
    (ipc : Bool) (now : Time) :
    w.fireStep i healthy ipc now = w ∨
    ∃ s cb, w.pending[i]? = some s ∧ s.callback = some cb ∧
      w.fireStep i healthy ipc now =
        { w with pending := w.pending.eraseIdx i }.onActiveExhausted cb healthy
          ipc now := by
  unfold fireStep
  split
  · next cb _ _ hs => exact .inr ⟨_, cb, hs, rfl, rfl⟩
  · exact .inl rfl

section Steps

variable [DecidableEq Addr]

theorem onExhausted_step (c : HubFailover Addr) (e : CtrlEvent Addr) :
    (c.step e.event).ctrl.onExhausted = c.onExhausted := by
  cases e with
  | path => rfl
  | updateResolution specIdx e now =>
    obtain ⟨_, _, _, _, heq, -⟩ := c.updateResolution_frame specIdx e now
    exact (congrArg HubFailover.onExhausted heq :)
  | check now =>
    obtain ⟨-, -, -, -, hcb⟩ := c.checkLocked_frame now
    exact hcb

theorem ctrlStep_cases (w : Egress Addr) (name : String) (e : CtrlEvent Addr) :
    w.ctrlStep name e = w ∨
    ∃ c, w.ctrls name = some c ∧
      w.ctrlStep name e = { w with
        ctrls := Function.update w.ctrls name (some (c.step e.event).ctrl)
        pending :=
          if (c.step e.event).raised then
            ⟨name, none, false, w.sel.active ≠ name⟩ :: w.pending
          else w.pending } := by
  unfold ctrlStep
  cases hc : w.ctrls name with
  | none => exact .inl rfl
  | some c => exact .inr ⟨c, rfl, rfl⟩

/-- The property is kept by every move that egress can make. -/
structure Kept (P : Egress Addr → Prop) : Prop extends Decided P where
  wired {w : Egress Addr} : P w →
    P { w with sel := { w.sel with rtt := true } }
  ctrl {w : Egress Addr} {name : String} {c c' : HubFailover Addr} :
    P w → w.ctrls name = some c → c'.onExhausted = c.onExhausted →
    P { w with ctrls := Function.update w.ctrls name (some c') }
  pending {w : Egress Addr} : P w →
    ∀ pending, P { w with pending := pending }

namespace Kept

variable {P : Egress Addr → Prop} (h : Kept P) (ok : P w)
include h ok

theorem act (a : Act Addr) : P (w.act a) := by
  cases a with
  | setMode mode ipc now => exact h.setMode ok mode ipc now
  | enableRTTSelection => exact h.wired ok
  | evaluateAuto healthy rtt ipc now =>
    exact h.evaluateAuto ok healthy rtt ipc now
  | retry healthy ipc now => exact h.retry ok healthy ipc now
  | ctrl name e =>
    rw [Egress.act]
    rcases w.ctrlStep_cases name e with heq | ⟨c, hc, heq⟩
    · rwa [heq]
    · rw [heq]
      exact h.pending (h.ctrl ok hc (onExhausted_step c e)) _
  | fetch i =>
    rw [Egress.act, fetchStep_cases]
    exact h.pending ok _
  | fire i healthy ipc now =>
    rw [Egress.act]
    rcases w.fireStep_cases i healthy ipc now with heq | ⟨s, cb, -, -, heq⟩
    · rwa [heq]
    · rw [heq]
      exact h.onActiveExhausted (h.pending ok _) cb healthy ipc now

theorem step (a : Act Addr) : P (w.step a) := h.pending (h.act ok a) _

theorem run (acts : List (Act Addr)) : P (w.run acts) :=
  List.foldlRecOn acts _ ok fun _ ok a _ => h.step ok a

end Kept

end Steps

theorem kept_selectorOk : Kept (@SelectorOk Addr late) where
  switched := selectorOk_switched
  mode ok _ := ⟨ok.granted, ok.subscribed, ok.rested⟩
  returned ok _ := by
    obtain ⟨p, hp, hengine⟩ := ok.granted
    refine ⟨⟨p, hp, fun s hs => (hengine s hs).imp_right ?_⟩, ok.subscribed,
      .returned _⟩
    rintro ⟨hlog, hlate⟩
    exact ⟨List.forall_mem_cons.mpr ⟨rfl, hlog⟩, hlate⟩
  wired ok := ⟨ok.granted, ok.subscribed, ok.rested⟩
  ctrl {w name c c'} ok hc hsame := by
    refine ⟨ok.granted, fun n x hx => ?_, ok.rested⟩
    dsimp only at hx
    by_cases hn : n = name
    · subst hn
      rw [Function.update_self] at hx
      cases hx
      rw [hsame]
      exact ok.subscribed n c hc
    · rw [Function.update_of_ne hn] at hx
      exact ok.subscribed n x hx
  pending ok _ := ⟨ok.granted, ok.subscribed, ok.rested⟩

/-- A selector just built, over controllers without a subscriber and an engine
that gives its first exit the halves. -/
theorem selectorOk_boot {c : Config} {sel : ExitSelector}
    (hsel : newExitSelector c = some sel)
    {ctrls : String → Option (HubFailover Addr)}
    (hfresh : ∀ n x, ctrls n = some x → x.onExhausted = none) {engine : Table}
    (hengine : ∀ first ∈ c.exitPeers.head?,
      ∀ s ∈ defaultRouteSplits first.2.allowedIPs,
        engine s.masked = some first.2.publicKey ∨ late s.masked) :
    SelectorOk late (enableAutoPromotion sel ctrls engine) := by
  unfold newExitSelector at hsel
  split at hsel
  · cases hsel
  obtain ⟨entry, hentry, rfl⟩ := Option.map_eq_some_iff.mp hsel
  rw [configuredExits, List.head?_map] at hentry
  obtain ⟨first, hfirst, rfl⟩ := Option.map_eq_some_iff.mp hentry
  have hlookup : (configuredExits c).lookup first.2.identity =
      some ⟨first.2.publicKey, defaultRouteSplits first.2.allowedIPs⟩ := by
    obtain ⟨rest, hexits⟩ := List.head?_eq_some_iff.mp hfirst
    rw [configuredExits, hexits, List.map_cons, List.lookup_cons_self]
  refine ⟨⟨_, hlookup, fun s hs => ?_⟩, ?_, .fresh⟩
  · exact (hengine first hfirst s hs).imp_right fun hlate => ⟨nofun, hlate⟩
  intro n x hx
  rcases setOnExhausted_some hx with ⟨rfl, hcb⟩ | ⟨hne, hx⟩
  · rw [hcb]
    simp [enableAutoPromotion]
  · rw [hfresh n x hx]
    simp [enableAutoPromotion, hne]

/-! ## Requests -/

variable {mode : String}

theorem setMode_refused {ipc : Bool} {now : Time}
    (h : (w.setMode mode ipc now).2 ≠ none) :
    (w.setMode mode ipc now).1 = w := by
  rcases w.setMode_cases mode ipc now with heq | ⟨-, heq⟩ | heq |
    ⟨target, -, -, -, heq⟩
  · exact heq
  · exact absurd (congrArg Prod.snd heq) h
  · exact absurd (congrArg Prod.snd heq) h
  · exact absurd (congrArg Prod.snd heq) h

theorem setMode_unknown (hauto : mode ≠ "auto")
    (hunknown : w.sel.exits.lookup mode = none) (ipc : Bool) (now : Time) :
    (w.setMode mode ipc now).2 = some (.unknownExit mode) := by
  simp [setMode, hauto, hunknown]

theorem setMode_failed (hauto : mode ≠ "auto") (hactive : mode ≠ w.sel.active)
    (now : Time) : (w.setMode mode false now).2 ≠ none := by
  cases hlookup : w.sel.exits.lookup mode with
  | none => simp [setMode, hauto, hlookup]
  | some => simp [setMode, hauto, hlookup, switchLocked, hactive]

theorem promote_failed (w : Egress Addr) (healthy : String → Bool)
    (now : Time) : w.promote healthy false now = w := by
  rcases w.promote_cases healthy false now with heq | ⟨_, _, -, -, hipc, -⟩
  · exact heq
  · cases hipc

theorem evaluateAuto_failed (w : Egress Addr) (healthy : String → Bool)
    (rtt : String → Option Duration) (now : Time) :
    w.evaluateAuto healthy rtt false now = w := by
  rcases w.evaluateAuto_cases healthy rtt false now with heq |
    ⟨_, _, -, -, hipc, -⟩
  · exact heq
  · cases hipc

theorem Rested.cooldown {last : Option Time} {log : List Entry}
    (h : Rested last log) {now : Time}
    (hcool : ∀ t, last = some t → autoExitCooldown ≤ now - t)
    {later earlier : List Entry} {origin target : String} {reason : Reason}
    {t : Time} (hlog : log = later ++ .switched origin target reason t :: earlier)
    (hlater : ∀ e ∈ later, e = .returned) :
    .returned ∈ later ∨ autoExitCooldown ≤ now - t := by
  cases later with
  | cons e =>
    have he := hlater e List.mem_cons_self
    subst he
    exact .inl List.mem_cons_self
  | nil =>
    right
    rw [List.nil_append] at hlog
    subst hlog
    cases h with
    | switched => exact hcool t rfl

/-! ## An edge with two exits -/

/-- The IPv4 default route. -/
def anyAddress : Cidr := ⟨.v4, 0, 0, by decide, by decide⟩

/-- An exit-capable peer with the IPv4 default route and one address. -/
def exitAt (publicKey name psk : String) (addr : BitVec 32) : Peer where
  publicKey := publicKey
  name := name
  psk := psk
  dns := false
  mode := .defaultRoute
  endpointSpecs := [.literal ⟨.v4 addr, 51820⟩]
  allowedIPs :=
    [anyAddress, ⟨.v4, addr.toNat, 32, addr.isLt, by decide⟩]

def twoExits : Config where
  role := .edge
  exit := "auto"
  paths := ["wan"]
  peers := [exitAt "aa" "a" "ka" 1, exitAt "bb" "b" "kb" 2]

def twoSelector : ExitSelector := (newExitSelector twoExits).get (by decide)

theorem newExitSelector_twoExits :
    newExitSelector twoExits = some twoSelector :=
  (Option.some_get _).symm

theorem nodup_one : [1].Nodup := List.nodup_singleton 1

/-- A controller of one endpoint behind a path that is down. -/
def downCtrl : HubFailover ℕ :=
  .newHubFailoverFromSpecs [⟨[1], nodup_one⟩] [.down] true (3 * second) 0

def twoCtrls (name : String) : Option (HubFailover ℕ) :=
  if name = "a" ∨ name = "b" then some downCtrl else none

theorem twoCtrls_fresh (n : String) (x : HubFailover ℕ)
    (h : twoCtrls n = some x) : x.onExhausted = none := by
  unfold twoCtrls at h
  split at h
  · cases h
    rfl
  · cases h

def twoEgress : Egress ℕ := enableAutoPromotion twoSelector twoCtrls .empty

end Egress

end Wanbond.Device
