import Wanbond.Telemetry.Adoption

/-!
# Failed draws and restart reports

Two facts about the bookkeeping of a reflector.  A draw that fails leaves the
reflector as it was exactly if it was not an adoption that failed: an adoption
overwrites the session of the path before it draws.  And a restart is reported
at an adoption over another session, once for each session as long as the paths
adopt the sessions of the peer in their order.
-/

namespace Wanbond.Telemetry

open Wanbond.Frame (Probe)
open Wanbond.Support

namespace Reflector

variable {r r' : Reflector} {p : Probe} {probes : List Probe} {q : UInt8}
  {reply : Except ProbeError AcceptedProbe}

/-! ## A failed draw -/

/-- The reflector with another random source. -/
def withRand (r : Reflector) (rand : List (Option UInt64)) : Reflector :=
  { r with rand }

/-- The probe leaves the session, the anti-replay filter and the challenge of
every path and the restart bookkeeping as they were, and whatever is received
later is answered as if it had not been. -/
structure Harmless (r : Reflector) (p : Probe) : Prop where
  paths : ∀ q, (r.acceptProbe p).1.paths.lookup q = r.paths.lookup q
  lastRestartSession :
    (r.acceptProbe p).1.lastRestartSession = r.lastRestartSession
  haveRestartSession :
    (r.acceptProbe p).1.haveRestartSession = r.haveRestartSession
  later : ∀ rand probes,
    ((r.acceptProbe p).1.withRand rand).replies probes =
      (r.withRand rand).replies probes

theorem harmless_of_eq_withRand {rand : List (Option UInt64)}
    (h : (r.acceptProbe p).1 = r.withRand rand) : r.Harmless p where
  paths q := by rw [h]; rfl
  lastRestartSession := by rw [h]; rfl
  haveRestartSession := by rw [h]; rfl
  later rand' probes := by rw [h]; rfl

variable {st : ReflectorPath}

theorem adoptedBy_ne {ch : UInt64}
    (hsession : st.adopted = true → p.sessionID ≠ st.session) :
    adoptedBy p ch ≠ st := by
  rintro rfl
  exact hsession rfl rfl

theorem not_carriesLive_of_uncontacted {rand : List (Option UInt64)}
    (hnone : r.paths.lookup p.pathID = none)
    (hdraw : drawChallenge r.rand = (rand, none)) : ¬ r.CarriesLive p := by
  rintro (hlive | ⟨-, hdrawn⟩)
  · rw [challenge, hnone] at hlive
    cases hlive
  · rw [hdraw] at hdrawn
    cases hdrawn

theorem failed_draw_harmless_iff (r : Reflector) (p : Probe)
    (hfailed : (r.acceptProbe p).2 = .error .drawChallenge) :
    r.Harmless p ↔ ¬ r.CarriesLive p := by
  obtain ⟨r', reply, heq, hstep⟩ := r.acceptProbe_handled p
  rw [heq] at hfailed
  subst hfailed
  cases hstep with
  | uncontacted hnone hdraw =>
    exact iff_of_true (harmless_of_eq_withRand (by rw [heq]; rfl))
      (not_carriesLive_of_uncontacted hnone hdraw)
  | undrawn hcontact hsession hchallenge hdraw =>
    refine iff_of_false (fun h => ?_)
      (not_not.mpr (hcontact.carriesLive hchallenge))
    have hpath := h.paths p.pathID
    rw [heq] at hpath
    simp only [Finmap.lookup_insert] at hpath
    cases hcontact with
    | known hst =>
      rw [hst] at hpath
      exact adoptedBy_ne hsession (Option.some.inj hpath)
    | first hnone =>
      rw [hnone] at hpath
      cases hpath

/-- A path that has adopted session 1 and issued the challenge 7. -/
def adoptedPath (rand : List (Option UInt64)) : Reflector :=
  ⟨rand, Finmap.singleton 0 ⟨1, ⟨4, true⟩, 7, true⟩, 0, false⟩

/-- The peer has restarted as session 2 and answers the challenge. -/
def restartedProbe : Probe := ⟨0, 0, 0, false, 2, 7, false, 0, []⟩

/-- Beside a path that has adopted its session, the random source fails at the
first probe of another. -/
theorem failed_draw_harmless_first_contact :
    ((adoptedPath [none]).acceptProbe ⟨1, 0, 0, false, 1, 7, false, 0, []⟩).2 =
        .error .drawChallenge ∧
      (adoptedPath [none]).Harmless ⟨1, 0, 0, false, 1, 7, false, 0, []⟩ :=
  ⟨by decide, (failed_draw_harmless_iff (adoptedPath [none])
    ⟨1, 0, 0, false, 1, 7, false, 0, []⟩ (by decide)).mpr
      (not_carriesLive_of_uncontacted rfl rfl)⟩

/-- The draw fails at the adoption of the restarted peer: the path has adopted
its session, and the probe that is sent again is refused as a replay and not
reported as a restart. -/
theorem failed_adoption_loses_restart :
    ((adoptedPath [none]).acceptProbe restartedProbe).2 =
        .error .drawChallenge ∧
      ((adoptedPath [none]).acceptProbe restartedProbe).1.session 0 = some 2 ∧
      (((adoptedPath [none]).acceptProbe restartedProbe).1.withRand
          [some 9]).replies [restartedProbe] = [.error .replay] ∧
      ((adoptedPath [none]).withRand [some 9]).replies [restartedProbe] =
        [.ok ⟨echo restartedProbe 9, .adopted, true⟩] := by
  refine ⟨by decide, by decide, by decide, by decide⟩

/-! ## Reports -/

/-- The session that a reply reports as the one of a restarted peer. -/
def reportOf (p : Probe) : Except ProbeError AcceptedProbe → List UInt64
  | .ok a => if a.epochChanged then [p.sessionID] else []
  | .error _ => []

/-- The sessions reported in reply to a sequence of probes. -/
def reports (r : Reflector) : List Probe → List UInt64
  | [] => []
  | p :: probes =>
    reportOf p (r.acceptProbe p).2 ++ reports (r.acceptProbe p).1 probes

/-- The path had adopted another session than that of the probe, whose challenge
it carries. -/
def Restarts (r : Reflector) (p : Probe) : Prop :=
  ∃ s, r.session p.pathID = some s ∧ s ≠ p.sessionID ∧ r.CarriesLive p

/-- What a reply says about the restart bookkeeping. -/
inductive Reported (r : Reflector) (p : Probe) (r' : Reflector) :
    Bool → Prop
  | silent (hlast : r'.lastRestartSession = r.lastRestartSession)
      (hhave : r'.haveRestartSession = r.haveRestartSession) :
      Reported r p r' false
  | restart (hrestart : r.Restarts p)
      (hadopted : r'.session p.pathID = some p.sessionID)
      (hnew : r.haveRestartSession = true →
        p.sessionID ≠ r.lastRestartSession)
      (hlast : r'.lastRestartSession = p.sessionID)
      (hhave : r'.haveRestartSession = true) : Reported r p r' true

/-- Whether a reply reports a restart. -/
def epochChanged : Except ProbeError AcceptedProbe → Bool
  | .ok a => a.epochChanged
  | .error _ => false

theorem Contacted.bookkeeping {r₁ : Reflector} (h : Contacted r q r₁ st) :
    r₁.lastRestartSession = r.lastRestartSession ∧
      r₁.haveRestartSession = r.haveRestartSession := by
  cases h <;> exact ⟨rfl, rfl⟩

theorem Contacted.session_of_adopted {r₁ : Reflector} (h : Contacted r q r₁ st)
    (hadopted : st.adopted = true) : r.session q = some st.session := by
  rw [← h.session, Reflector.session, h.lookup, Option.bind_some,
    if_pos hadopted]

theorem reportRestart_cases (r : Reflector) (restart : Bool) (s : UInt64) :
    r.reportRestart restart s = (r, false) ∨
      restart = true ∧
        (r.haveRestartSession = true → s ≠ r.lastRestartSession) ∧
        r.reportRestart restart s =
          ({ r with lastRestartSession := s, haveRestartSession := true },
            true) := by
  unfold reportRestart
  split_ifs with h
  · refine .inr ⟨h.1, fun hhave => ?_, rfl⟩
    simpa [hhave] using h.2
  · exact .inl rfl

theorem Handled.reported (h : Handled r p r' reply) :
    Reported r p r' (epochChanged reply) := by
  cases h with
  | uncontacted | stale | current => exact .silent rfl rfl
  | undrawn hcontact | bootstrap hcontact =>
    exact .silent hcontact.bookkeeping.1 hcontact.bookkeeping.2
  | @adopted r₁ st rand ch hcontact hsession hchallenge hdraw =>
    obtain ⟨hlast, hhave⟩ := hcontact.bookkeeping
    have hadopted := session_adoption r₁ p st rand ch
    rcases reportRestart_cases
        { r₁ with rand, paths := r₁.paths.insert p.pathID (adoptedBy p ch) }
        (st.adopted && decide (p.sessionID ≠ st.session)) p.sessionID with
      heq | ⟨hrestart, hnew, heq⟩
    · have hsilent : r₁.adoption p st rand ch = (_, false) := heq
      rw [hsilent]
      exact .silent hlast hhave
    rw [Bool.and_eq_true, decide_eq_true_iff] at hrestart
    have hreport : r₁.adoption p st rand ch = (_, true) := heq
    rw [hreport] at hadopted ⊢
    refine .restart ⟨st.session, hcontact.session_of_adopted hrestart.1,
      hrestart.2.symm, hcontact.carriesLive hchallenge⟩ hadopted ?_ rfl rfl
    intro hhave'
    rw [← hlast]
    exact hnew (hhave.trans hhave')

theorem reported_acceptProbe (r : Reflector) (p : Probe) :
    Reported r p (r.acceptProbe p).1 (epochChanged (r.acceptProbe p).2) := by
  obtain ⟨r', reply, heq, hstep⟩ := r.acceptProbe_handled p
  rw [heq]
  exact hstep.reported

theorem reportOf_eq (p : Probe) (reply : Except ProbeError AcceptedProbe) :
    reportOf p reply = if epochChanged reply then [p.sessionID] else [] := by
  cases reply <;> rfl

/-- A path that adopts another session than it had adopts none that precedes, in
the order of the sessions of the peer, the one reported last. -/
def InOrder (age : UInt64 → ℕ) (r : Reflector) (p : Probe) : Prop :=
  r.Restarts p → r.haveRestartSession = true →
    age r.lastRestartSession ≤ age p.sessionID

/-- Sessions are reported in their order, each after the one reported last. -/
theorem reports_increasing {age : UInt64 → ℕ} (hage : age.Injective)
    (h : Along (fun r p => (acceptProbe r p).1) (InOrder age) r probes) :
    (r.reports probes).Pairwise (age · < age ·) ∧
      ∀ s ∈ r.reports probes, r.haveRestartSession = true →
        age r.lastRestartSession < age s := by
  induction probes generalizing r with
  | nil => exact ⟨.nil, nofun⟩
  | cons p probes ih =>
    obtain ⟨horder, hrest⟩ := h
    obtain ⟨hpairs, hlater⟩ := ih hrest
    have hreport := r.reported_acceptProbe p
    rw [reports, reportOf_eq]
    generalize epochChanged (r.acceptProbe p).2 = changed at hreport ⊢
    cases hreport with
    | silent hlast hhave =>
      rw [hlast, hhave] at hlater
      exact ⟨hpairs, hlater⟩
    | restart hrestart _ hnew hlast hhave =>
      have hlater' : ∀ s ∈ reports (r.acceptProbe p).1 probes,
          age p.sessionID < age s := fun s hs => by
        rw [← hlast]
        exact hlater s hs hhave
      have hfirst : r.haveRestartSession = true →
          age r.lastRestartSession < age p.sessionID := fun hhave' => by
        refine lt_of_le_of_ne (horder hrestart hhave') fun heq => ?_
        exact hnew hhave' (hage heq).symm
      refine ⟨List.pairwise_cons.mpr ⟨hlater', hpairs⟩, ?_⟩
      intro s hs hhave'
      rcases List.mem_cons.mp hs with rfl | hs
      · exact hfirst hhave'
      · exact (hfirst hhave').trans (hlater' s hs)

/-- What is reported in reply to a sequence of probes. -/
structure ReportedOnce (r : Reflector) (probes : List Probe) : Prop where
  /-- No session is reported twice. -/
  once : (r.reports probes).Nodup
  /-- A restart is reported at an adoption over another session. -/
  switch : ∀ k p, probes[k]? = some p →
    epochChanged ((r.run (probes.take k)).acceptProbe p).2 = true →
    ∃ s, (r.run (probes.take k)).session p.pathID = some s ∧
      s ≠ p.sessionID ∧
      (r.run (probes.take (k + 1))).session p.pathID = some p.sessionID

/-- Where a path never goes back to a session before the one reported last, no
session is reported twice, and each report comes with the adoption of its session
over another one. -/
theorem one_report_per_session (age : UInt64 → ℕ) (hage : age.Injective)
    (rand : List (Option UInt64)) (probes : List Probe)
    (horder : Along (fun r p => (acceptProbe r p).1) (InOrder age) (new rand)
      probes) :
    ReportedOnce (new rand) probes where
  once := by
    refine (reports_increasing hage horder).1.imp fun hlt heq => ?_
    rw [heq] at hlt
    exact lt_irrefl _ hlt
  switch := by
    intro k p hp hchanged
    have hreport := ((new rand).run (probes.take k)).reported_acceptProbe p
    rw [hchanged] at hreport
    cases hreport with
    | restart hrestart =>
      obtain ⟨s, hs, hne, -⟩ := hrestart
      refine ⟨s, hs, hne, ?_⟩
      rwa [run, foldl_take_succ hp]

/-- Sessions 1, 2 and 3 of a peer are adopted on a path one after the other. -/
def successiveProbes : List Probe :=
  [⟨0, 0, 0, false, 1, 11, false, 0, []⟩, ⟨0, 0, 0, false, 2, 12, false, 0, []⟩,
    ⟨0, 0, 0, false, 3, 13, false, 0, []⟩]

theorem one_report_per_session_successive :
    (new [some 11, some 12, some 13, some 14]).reports successiveProbes = [2, 3] ∧
      ReportedOnce (new [some 11, some 12, some 13, some 14]) successiveProbes :=
  ⟨by decide, one_report_per_session UInt64.toNat
    (fun _ _ => UInt64.toNat_inj.mp) [some 11, some 12, some 13, some 14]
    successiveProbes
    -- session 3 is adopted after session 2 has been reported, and follows it
    ⟨fun _ h => absurd h (by decide), fun _ h => absurd h (by decide),
      fun _ _ => by decide, trivial⟩⟩

/-- Session 1 is adopted on paths 0 and 1, then sessions 2 and 3 on path 0;
the adoption probe of session 2 on path 1 arrives last. -/
def overtakenProbes : List Probe :=
  [⟨0, 0, 0, false, 1, 11, false, 0, []⟩, ⟨1, 0, 0, false, 1, 13, false, 0, []⟩,
    ⟨0, 0, 0, false, 2, 12, false, 0, []⟩, ⟨0, 0, 0, false, 3, 15, false, 0, []⟩,
    ⟨1, 1, 0, false, 2, 14, false, 0, []⟩]

theorem session_reported_twice :
    (new [some 11, some 12, some 13, some 14, some 15, some 16, some 17]).reports
      overtakenProbes = [2, 3, 2] := by
  decide

end Reflector

end Wanbond.Telemetry
