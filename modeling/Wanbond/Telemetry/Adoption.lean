import Wanbond.Support.Runs
import Wanbond.Telemetry.Probe

/-!
# Sessions are adopted by challenge

A reflector answers a sequence of probes, which may contain any frame any number
of times and in any order.  If its random source yields pairwise distinct
values, a challenge is live on its path from the adoption (or the first contact)
that issued it to the next adoption, and never again.  So a frame is adopted at
most once, and not at all once the challenge it carries has been replaced.
-/

namespace Wanbond.Telemetry

open Wanbond.Frame (Probe)
open Wanbond.Support

/-! ## Draws -/

/-- The values that the coming reads of the random source yield. -/
def words (rand : List (Option UInt64)) : List UInt64 := rand.filterMap id

theorem words_drawChallenge_suffix (rand : List (Option UInt64)) :
    words (drawChallenge rand).1 <:+ words rand := by
  induction rand with
  | nil => exact List.suffix_refl _
  | cons result rest ih =>
    cases result with
    | none => exact List.suffix_refl _
    | some v =>
      have hrest : words rest <:+ words (some v :: rest) :=
        List.suffix_cons v (words rest)
      unfold drawChallenge
      split_ifs
      · exact ih.trans hrest
      · exact hrest

theorem drawChallenge_some {rand rest : List (Option UInt64)} {v : UInt64}
    (h : drawChallenge rand = (rest, some v)) :
    v ≠ 0 ∧ v :: words rest <:+ words rand := by
  induction rand with
  | nil => cases h
  | cons result rand ih =>
    cases result with
    | none => cases h
    | some w =>
      unfold drawChallenge at h
      split_ifs at h with hw
      · obtain ⟨hv, hsuffix⟩ := ih h
        exact ⟨hv, hsuffix.trans (List.suffix_cons w (words rand))⟩
      · cases h
        exact ⟨hw, List.suffix_refl _⟩

namespace Reflector

/-! ## Runs -/

def run (r : Reflector) (probes : List Probe) : Reflector :=
  probes.foldl (fun r p => (r.acceptProbe p).1) r

/-- The replies to a sequence of probes. -/
def replies (r : Reflector) :
    List Probe → List (Except ProbeError AcceptedProbe)
  | [] => []
  | p :: probes => (r.acceptProbe p).2 :: replies (r.acceptProbe p).1 probes

/-- The session that a path has adopted. -/
def session (r : Reflector) (q : UInt8) : Option UInt64 :=
  (r.paths.lookup q).bind fun st => if st.adopted then some st.session else none

/-- The live challenge of a path. -/
def challenge (r : Reflector) (q : UInt8) : Option UInt64 :=
  (r.paths.lookup q).map ReflectorPath.challenge

/-- The challenge that a reply carries. -/
def issuedBy : Except ProbeError AcceptedProbe → List UInt64
  | .ok a => [a.probe.challenge]
  | .error _ => []

/-- The challenges issued in reply to a sequence of probes. -/
def issued (r : Reflector) (probes : List Probe) : List UInt64 :=
  (r.replies probes).flatMap issuedBy

/-- The challenge issued last on a path, by an adoption or by the first contact,
after one more probe and its reply. -/
def noteIssue (q : UInt8) (last : Option UInt64)
    (answered : Probe × Except ProbeError AcceptedProbe) : Option UInt64 :=
  if answered.1.pathID ≠ q then last
  else
    match answered.2, last with
    | .error _, _ => last
    | .ok a, none => some a.probe.challenge
    | .ok a, some c =>
      if a.acceptance = .adopted then some a.probe.challenge else some c

/-- The challenge issued by the most recent adoption on a path, or by the first
contact if there was no adoption. -/
def lastIssued (r : Reflector) (probes : List Probe) (q : UInt8) :
    Option UInt64 :=
  (probes.zip (r.replies probes)).foldl (noteIssue q) none

/-- No read of the random source fails. -/
def Drawn (r : Reflector) (probes : List Probe) : Prop :=
  ∀ reply ∈ r.replies probes, reply ≠ .error .drawChallenge

/-- The probe changes the session that its path has adopted. -/
def Adopts (r : Reflector) (p : Probe) : Prop :=
  (r.acceptProbe p).1.session p.pathID ≠ r.session p.pathID

/-- The probe is accepted as one of the adopted session. -/
def Accepts (r : Reflector) (p : Probe) : Prop :=
  ∃ a, (r.acceptProbe p).2 = .ok a ∧ a.acceptance ≠ .bootstrap

variable {r r' : Reflector} {p : Probe} {probes : List Probe} {q : UInt8}
  {reply : Except ProbeError AcceptedProbe}

theorem run_append (r : Reflector) (before after : List Probe) :
    r.run (before ++ after) = (r.run before).run after :=
  List.foldl_append

theorem replies_append (r : Reflector) (before after : List Probe) :
    r.replies (before ++ after) =
      r.replies before ++ (r.run before).replies after := by
  induction before generalizing r with
  | nil => rfl
  | cons p _ ih => exact congrArg ((r.acceptProbe p).2 :: ·) (ih _)

theorem Drawn.left {before after : List Probe}
    (h : r.Drawn (before ++ after)) : r.Drawn before := by
  intro reply hmem
  refine h reply ?_
  rw [replies_append]
  exact List.mem_append_left _ hmem

theorem Drawn.cons (h : r.Drawn (p :: probes))
    (heq : r.acceptProbe p = (r', reply)) :
    reply ≠ .error .drawChallenge ∧ r'.Drawn probes := by
  unfold Drawn at h
  rw [replies, heq] at h
  exact List.forall_mem_cons.mp h

theorem run_induction {P : Reflector → Prop}
    (hstep : ∀ r p, P r → P (r.acceptProbe p).1) (h : P r)
    (probes : List Probe) : P (r.run probes) := by
  induction probes generalizing r with
  | nil => exact h
  | cons p _ ih => exact ih (hstep r p h)

/-! ## Challenges are fresh -/

/-- The values still to be drawn are new, and every live challenge was
issued. -/
structure Fresh (known : List UInt64) (r : Reflector) : Prop where
  nodup : (words r.rand).Nodup
  unissued : ∀ c ∈ known, c ≠ 0 ∧ c ∉ words r.rand
  live : ∀ q st, r.paths.lookup q = some st → st.challenge ∈ known

variable {r₁ : Reflector} {st : ReflectorPath}

theorem Contacted.words_suffix (h : Contacted r q r₁ st) :
    words r₁.rand <:+ words r.rand := by
  cases h with
  | known => exact List.suffix_refl _
  | first _ hdraw =>
    exact (List.suffix_cons _ _).trans (drawChallenge_some hdraw).2

theorem Handled.words_suffix (h : Handled r p r' reply) :
    words r'.rand <:+ words r.rand := by
  cases h with
  | uncontacted _ hdraw =>
    simpa [hdraw] using words_drawChallenge_suffix r.rand
  | stale | current => exact List.suffix_refl _
  | adopted hcontact _ _ hdraw =>
    rw [adoption_rand]
    exact ((List.suffix_cons _ _).trans (drawChallenge_some hdraw).2).trans
      hcontact.words_suffix
  | @undrawn r₁ _ _ hcontact hsession hchallenge hdraw =>
    have hrest := words_drawChallenge_suffix r₁.rand
    rw [hdraw] at hrest
    exact hrest.trans hcontact.words_suffix
  | bootstrap hcontact => exact hcontact.words_suffix

variable {c : UInt64}

theorem Handled.notMem_words (h : Handled r p r' reply) (hc : c ∉ words r.rand) :
    c ∉ words r'.rand :=
  fun hmem => hc (h.words_suffix.subset hmem)

variable {known : List UInt64}

theorem Contacted.challenge_known (hfresh : Fresh known r)
    (h : Contacted r q r₁ st) :
    st.challenge ≠ 0 ∧ st.challenge ∉ words r₁.rand := by
  cases h with
  | known hst => exact hfresh.unissued _ (hfresh.live _ _ hst)
  | first _ hdraw =>
    obtain ⟨hne, hsuffix⟩ := drawChallenge_some hdraw
    exact ⟨hne, (List.nodup_cons.mp (hfresh.nodup.sublist
      hsuffix.sublist)).1⟩

theorem Fresh.step (hfresh : Fresh known r) (h : Handled r p r' reply)
    (hdrawn : reply ≠ .error .drawChallenge) :
    Fresh (known ++ issuedBy reply) r' := by
  have hnodup : (words r'.rand).Nodup :=
    hfresh.nodup.sublist h.words_suffix.sublist
  have hknown : ∀ c ∈ known, c ≠ 0 ∧ c ∉ words r'.rand := fun c hc =>
    ⟨(hfresh.unissued c hc).1, h.notMem_words (hfresh.unissued c hc).2⟩
  have hother : ∀ q st, q ≠ p.pathID → r'.paths.lookup q = some st →
      st.challenge ∈ known := fun q st hne hst =>
    hfresh.live q st (h.lookup_ne hne ▸ hst)
  -- it remains to look at the reply and at the path of the probe
  suffices (∀ c ∈ issuedBy reply, c ≠ 0 ∧ c ∉ words r'.rand) ∧
      ∀ st, r'.paths.lookup p.pathID = some st →
        st.challenge ∈ known ++ issuedBy reply by
    refine ⟨hnodup, fun c hc => ?_, fun q st hst => ?_⟩
    · exact (List.mem_append.mp hc).elim (hknown c) (this.1 c)
    · by_cases hq : q = p.pathID
      · exact this.2 st (hq ▸ hst)
      · exact List.mem_append_left _ (hother q st hq hst)
  cases h with
  | uncontacted | undrawn => exact absurd rfl hdrawn
  | stale hst hadopted hsession hseen hseq =>
    refine ⟨nofun, fun st' hst' => ?_⟩
    exact List.mem_append_left _ (hfresh.live _ _ hst')
  | current hst =>
    have hmem := hfresh.live _ _ hst
    refine ⟨fun c hc => ?_, fun st' hst' => ?_⟩
    · rw [List.mem_singleton.mp hc]
      exact hknown _ hmem
    · rw [Finmap.lookup_insert] at hst'
      cases hst'
      exact List.mem_append_left _ hmem
  | adopted hcontact _ _ hdraw =>
    obtain ⟨hne, hsuffix⟩ := drawChallenge_some hdraw
    have hnew := (hfresh.nodup.sublist
      hcontact.words_suffix.sublist).sublist hsuffix.sublist
    refine ⟨fun c hc => ?_, fun st' hst' => ?_⟩
    · rw [List.mem_singleton.mp hc, adoption_rand]
      exact ⟨hne, (List.nodup_cons.mp hnew).1⟩
    · rw [adoption_paths, Finmap.lookup_insert] at hst'
      cases hst'
      exact List.mem_append_right _ (List.mem_singleton.mpr rfl)
  | bootstrap hcontact =>
    refine ⟨fun c hc => ?_, fun st' hst' => ?_⟩
    · rw [List.mem_singleton.mp hc]
      exact hcontact.challenge_known hfresh
    · rw [hcontact.lookup] at hst'
      cases hst'
      exact List.mem_append_right _ (List.mem_singleton.mpr rfl)

theorem fresh_run (known : List UInt64) (hfresh : Fresh known r)
    (hdrawn : r.Drawn probes) :
    Fresh (known ++ r.issued probes) (r.run probes) := by
  induction probes generalizing r known with
  | nil => simpa [issued, replies, run] using hfresh
  | cons p probes ih =>
    obtain ⟨r', reply, heq, hstep⟩ := r.acceptProbe_handled p
    obtain ⟨hreply, hrest⟩ := hdrawn.cons heq
    have h := ih (known ++ issuedBy reply) (hfresh.step hstep hreply) hrest
    simpa [issued, replies, run, heq, List.append_assoc] using h

variable {rand : List (Option UInt64)}

theorem fresh_new (h : (words rand).Nodup) : Fresh [] (new rand) :=
  ⟨h, nofun, fun q st hst => by simp [new] at hst⟩

/-! ## What an adoption takes -/

theorem session_congr (h : r'.paths.lookup q = r.paths.lookup q) :
    r'.session q = r.session q := by
  rw [session, session, h]

theorem Contacted.session (h : Contacted r q r₁ st) :
    r₁.session q = r.session q := by
  cases h with
  | known => rfl
  | first hnone =>
    simp [Reflector.session, Finmap.lookup_insert, hnone]

theorem Contacted.session_ne (h : Contacted r p.pathID r₁ st)
    (hsession : st.adopted = true → p.sessionID ≠ st.session) :
    r.session p.pathID ≠ some p.sessionID := by
  rw [← h.session, Reflector.session, h.lookup, Option.bind_some]
  split_ifs with hadopted
  · exact fun heq => hsession hadopted (Option.some.inj heq).symm
  · nofun

theorem session_adoption (r₁ : Reflector) (p : Probe) (st : ReflectorPath)
    (rand : List (Option UInt64)) (ch : UInt64) :
    (r₁.adoption p st rand ch).1.session p.pathID = some p.sessionID := by
  rw [session, adoption_paths, Finmap.lookup_insert]
  rfl

theorem Handled.session_eq_or (h : Handled r p r' reply) (q : UInt8) :
    r'.session q = r.session q ∨
      q = p.pathID ∧ ∃ r₁ st, Contacted r p.pathID r₁ st ∧
        p.challenge = st.challenge := by
  by_cases hq : q = p.pathID
  · subst hq
    cases h with
    | uncontacted | stale => exact .inl rfl
    | current hst =>
      left
      simp [session, Finmap.lookup_insert, hst]
    | adopted hcontact _ hchallenge | undrawn hcontact _ hchallenge =>
      exact .inr ⟨rfl, _, _, hcontact, hchallenge⟩
    | bootstrap hcontact => exact .inl hcontact.session
  · exact .inl (session_congr (h.lookup_ne hq))

/-- The probe carries the live challenge of its path or, if it is the first one
there, the challenge that is drawn for it. -/
def CarriesLive (r : Reflector) (p : Probe) : Prop :=
  r.challenge p.pathID = some p.challenge ∨
    r.challenge p.pathID = none ∧
      (drawChallenge r.rand).2 = some p.challenge

theorem Contacted.carriesLive (h : Contacted r p.pathID r₁ st)
    (hchallenge : p.challenge = st.challenge) : r.CarriesLive p := by
  cases h with
  | known hst =>
    left
    rw [challenge, hst, hchallenge]
    rfl
  | first hnone hdraw =>
    right
    rw [challenge, hnone, hdraw, hchallenge]
    exact ⟨rfl, rfl⟩

theorem session_acceptProbe_eq_or (r : Reflector) (p : Probe) (q : UInt8) :
    (r.acceptProbe p).1.session q = r.session q ∨
      q = p.pathID ∧ r.CarriesLive p := by
  obtain ⟨r', reply, heq, hstep⟩ := r.acceptProbe_handled p
  rw [heq]
  rcases hstep.session_eq_or q with hsame | ⟨hq, r₁, st, hcontact, hch⟩
  · exact .inl hsame
  · exact .inr ⟨hq, hcontact.carriesLive hch⟩

theorem Adopts.carriesLive (h : r.Adopts p) : r.CarriesLive p :=
  (r.session_acceptProbe_eq_or p p.pathID).elim (absurd · h) And.right

theorem Handled.of_adopted {a : AcceptedProbe} (h : Handled r p r' (.ok a))
    (ha : a.acceptance = .adopted) :
    r.CarriesLive p ∧ r.session p.pathID ≠ some p.sessionID := by
  cases h with
  | current => cases ha
  | adopted hcontact hsession hchallenge =>
    exact ⟨hcontact.carriesLive hchallenge, hcontact.session_ne hsession⟩
  | bootstrap => cases ha

/-- A probe leaves challenge and session of a path, or the challenge is new. -/
theorem Handled.same_or_new (h : Handled r p r' reply)
    (hdrawn : reply ≠ .error .drawChallenge) (q : UInt8) :
    r'.challenge q = r.challenge q ∧ r'.session q = r.session q ∨
      ∃ c, r'.challenge q = some c ∧ c ≠ 0 ∧ c ∈ words r.rand := by
  by_cases hq : q = p.pathID
  · subst hq
    cases h with
    | uncontacted | undrawn => exact absurd rfl hdrawn
    | stale => exact .inl ⟨rfl, rfl⟩
    | current hst =>
      left
      simp [challenge, session, Finmap.lookup_insert, hst]
    | adopted hcontact _ _ hdraw =>
      obtain ⟨hne, hsuffix⟩ := drawChallenge_some hdraw
      refine .inr ⟨_, by rw [challenge, adoption_paths,
        Finmap.lookup_insert]; rfl, hne, ?_⟩
      exact hcontact.words_suffix.subset (hsuffix.subset List.mem_cons_self)
    | bootstrap hcontact =>
      cases hcontact with
      | known => exact .inl ⟨rfl, rfl⟩
      | first _ hdraw =>
        obtain ⟨hne, hsuffix⟩ := drawChallenge_some hdraw
        exact .inr ⟨_, by rw [challenge, Finmap.lookup_insert]; rfl, hne,
          hsuffix.subset List.mem_cons_self⟩
  · have hlookup := h.lookup_ne hq
    exact .inl ⟨by rw [challenge, challenge, hlookup], session_congr hlookup⟩

/-! ## The challenge issued last is the live one -/

theorem challenge_congr (h : r'.paths.lookup q = r.paths.lookup q) :
    r'.challenge q = r.challenge q := by
  rw [challenge, challenge, h]

theorem Handled.noteIssue (h : Handled r p r' reply)
    (hdrawn : reply ≠ .error .drawChallenge) (q : UInt8) :
    noteIssue q (r.challenge q) (p, reply) = r'.challenge q := by
  unfold Reflector.noteIssue
  split_ifs with hq
  · exact (challenge_congr (h.lookup_ne (Ne.symm hq))).symm
  rw [not_not] at hq
  subst hq
  cases h with
  | uncontacted | undrawn => exact absurd rfl hdrawn
  | stale => rfl
  | current hst =>
    simp [challenge, hst, Finmap.lookup_insert]
  | @adopted r₁ st rand ch hcontact hsession hchallenge hdraw =>
    have hnew : (r₁.adoption p st rand ch).1.challenge p.pathID =
        some ch := by
      rw [challenge, adoption_paths, Finmap.lookup_insert]
      rfl
    rw [hnew]
    cases r.challenge p.pathID <;> rfl
  | bootstrap hcontact =>
    cases hcontact with
    | known hst => simp [challenge, hst]
    | first hnone =>
      simp [challenge, hnone, Finmap.lookup_insert, echo]

theorem noteIssue_foldl (hdrawn : r.Drawn probes) (q : UInt8) :
    (probes.zip (r.replies probes)).foldl (Reflector.noteIssue q)
      (r.challenge q) = (r.run probes).challenge q := by
  induction probes generalizing r with
  | nil => rfl
  | cons p probes ih =>
    obtain ⟨r', reply, heq, hstep⟩ := r.acceptProbe_handled p
    obtain ⟨hreply, hrest⟩ := hdrawn.cons heq
    rw [replies, heq, List.zip_cons_cons, List.foldl_cons,
      hstep.noteIssue hreply, ih hrest]
    simp only [run, List.foldl_cons, heq]

theorem lastIssued_eq (hdrawn : (new rand).Drawn probes) (q : UInt8) :
    (new rand).lastIssued probes q = ((new rand).run probes).challenge q :=
  noteIssue_foldl hdrawn q

/-! ## A challenge is spent once -/

/-- The challenge is neither live on the path nor still to be drawn. -/
def Spent (q : UInt8) (c : UInt64) (r : Reflector) : Prop :=
  (∃ st, r.paths.lookup q = some st ∧ st.challenge ≠ c) ∧ c ∉ words r.rand

theorem Handled.spent (h : Handled r p r' reply) (hspent : Spent q c r) :
    Spent q c r' := by
  refine ⟨?_, h.notMem_words hspent.2⟩
  obtain ⟨⟨st₀, hst₀, hne⟩, hwords⟩ := hspent
  by_cases hq : q = p.pathID
  · subst hq
    cases h with
    | uncontacted | stale => exact ⟨st₀, hst₀, hne⟩
    | current hst =>
      rw [hst₀] at hst
      cases hst
      exact ⟨_, Finmap.lookup_insert _, hne⟩
    | adopted hcontact _ _ hdraw =>
      refine ⟨_, by rw [adoption_paths, Finmap.lookup_insert], ?_⟩
      rintro rfl
      exact hwords (hcontact.words_suffix.subset
        ((drawChallenge_some hdraw).2.subset List.mem_cons_self))
    | undrawn hcontact _ _ hdraw =>
      refine ⟨_, Finmap.lookup_insert _, ?_⟩
      cases hcontact with
      | known hst =>
        rw [hst₀] at hst
        cases hst
        exact hne
      | first hnone => simp [hst₀] at hnone
    | bootstrap hcontact =>
      cases hcontact with
      | known => exact ⟨st₀, hst₀, hne⟩
      | first hnone => simp [hst₀] at hnone
  · exact ⟨st₀, (h.lookup_ne hq).trans hst₀, hne⟩

theorem Spent.run (h : Spent q c r) (probes : List Probe) :
    Spent q c (r.run probes) := by
  refine run_induction (fun r p hr => ?_) h probes
  obtain ⟨r', reply, heq, hstep⟩ := r.acceptProbe_handled p
  rw [heq]
  exact hstep.spent hr

theorem Spent.not_adopts (h : Spent p.pathID p.challenge r) : ¬ r.Adopts p := by
  intro hadopts
  obtain ⟨⟨st, hst, hne⟩, -⟩ := h
  rcases hadopts.carriesLive with hlive | ⟨hnone, -⟩
  · rw [challenge, hst] at hlive
    exact hne (Option.some.inj hlive)
  · simp [challenge, hst] at hnone

/-- An adoption spends the challenge of the frame. -/
theorem Adopts.spent (hfresh : Fresh known r)
    (hdrawn : (r.acceptProbe p).2 ≠ .error .drawChallenge) (h : r.Adopts p) :
    Spent p.pathID p.challenge (r.acceptProbe p).1 := by
  obtain ⟨r', reply, heq, hstep⟩ := r.acceptProbe_handled p
  rw [Adopts, heq] at h
  rw [heq] at hdrawn ⊢
  cases hstep with
  | uncontacted | undrawn => exact absurd rfl hdrawn
  | stale => exact absurd rfl h
  | current hst =>
    exact absurd (by simp [session, Finmap.lookup_insert, hst]) h
  | bootstrap hcontact => exact absurd hcontact.session h
  | adopted hcontact _ hchallenge hdraw =>
    have hold := (hcontact.challenge_known hfresh).2
    obtain ⟨-, hsuffix⟩ := drawChallenge_some hdraw
    refine ⟨⟨_, by rw [adoption_paths, Finmap.lookup_insert], ?_⟩, ?_⟩
    · intro heq
      have hmem := hsuffix.subset List.mem_cons_self
      rw [← hchallenge, ← heq] at hold
      exact hold hmem
    · rw [adoption_rand, hchallenge]
      exact fun hmem =>
        hold (hsuffix.subset (List.mem_cons_of_mem _ hmem))

/-! ## Sequences increase within a session -/

/-- The path has adopted a session, in which `seq` was accepted. -/
def Passed (q : UInt8) (seq : UInt64) (r : Reflector) : Prop :=
  ∃ st, r.paths.lookup q = some st ∧ st.adopted = true ∧
    st.guard.seen = true ∧ seq ≤ st.guard.high

theorem Handled.passed_of_accepted {a : AcceptedProbe}
    (h : Handled r p r' (.ok a)) (ha : a.acceptance ≠ .bootstrap) :
    Passed p.pathID p.probeSeq r' := by
  cases h with
  | current _ hadopted =>
    exact ⟨_, Finmap.lookup_insert _, hadopted, rfl, UInt64.le_refl p.probeSeq⟩
  | adopted =>
    exact ⟨_, by rw [adoption_paths, Finmap.lookup_insert], rfl, rfl,
      UInt64.le_refl p.probeSeq⟩
  | bootstrap => exact absurd rfl ha

theorem Handled.passed {seq : UInt64} (h : Handled r p r' reply)
    (hsame : r'.session q = r.session q) (hpassed : Passed q seq r) :
    Passed q seq r' := by
  obtain ⟨st₀, hst₀, hadopted₀, hseen₀, hle⟩ := hpassed
  by_cases hq : q = p.pathID
  · subst hq
    cases h with
    | uncontacted | stale => exact ⟨st₀, hst₀, hadopted₀, hseen₀, hle⟩
    | current hst hadopted _ hseq =>
      rw [hst₀] at hst
      cases hst
      exact ⟨_, Finmap.lookup_insert _, hadopted, rfl,
        UInt64.le_trans hle (UInt64.le_of_lt (hseq hseen₀))⟩
    | adopted hcontact hsession =>
      rw [session_adoption] at hsame
      exact absurd hsame.symm (hcontact.session_ne hsession)
    | undrawn hcontact hsession =>
      rw [session, Finmap.lookup_insert] at hsame
      exact absurd hsame.symm (hcontact.session_ne hsession)
    | bootstrap hcontact =>
      cases hcontact with
      | known => exact ⟨st₀, hst₀, hadopted₀, hseen₀, hle⟩
      | first hnone => simp [hst₀] at hnone
  · exact ⟨st₀, (h.lookup_ne hq).trans hst₀, hadopted₀, hseen₀, hle⟩

theorem Passed.lt {seq : UInt64} (h : Passed p.pathID seq r)
    (haccepts : r.Accepts p) (hsame : ¬ r.Adopts p) : seq < p.probeSeq := by
  obtain ⟨st₀, hst₀, hadopted₀, hseen₀, hle⟩ := h
  obtain ⟨a, hreply, ha⟩ := haccepts
  obtain ⟨r', reply, heq, hstep⟩ := r.acceptProbe_handled p
  rw [heq] at hreply
  rw [Adopts, heq, not_not] at hsame
  subst hreply
  cases hstep with
  | current hst _ _ hseq =>
    rw [hst₀] at hst
    cases hst
    exact UInt64.lt_of_le_of_lt hle (hseq hseen₀)
  | adopted hcontact hsession =>
    rw [session_adoption] at hsame
    exact absurd hsame.symm (hcontact.session_ne hsession)
  | bootstrap => exact absurd rfl ha

/-! ## The runs of a reflector -/

/-- What holds of every sequence of probes that a new reflector answers. -/
structure Gated (rand : List (Option UInt64)) (probes : List Probe) : Prop where
  /-- The session of a path changes only on a probe with the challenge of the
  most recent adoption there, or of the first contact. -/
  live : ∀ (k : ℕ) p, probes[k]? = some p → ∀ q,
    ((new rand).run (probes.take (k + 1))).session q ≠
      ((new rand).run (probes.take k)).session q →
    q = p.pathID ∧
      ((new rand).lastIssued (probes.take k) q = some p.challenge ∨
        (new rand).lastIssued (probes.take k) q = none ∧
          (drawChallenge ((new rand).run (probes.take k)).rand).2 =
            some p.challenge)
  /-- A frame is adopted at most once. -/
  once : ∀ (i j : ℕ) p, probes[i]? = some p → probes[j]? = some p →
    ((new rand).run (probes.take i)).Adopts p →
    ((new rand).run (probes.take j)).Adopts p → i = j
  /-- A frame that was created after the first `k` probes, with no challenge or
  one issued by then, is not adopted once its path has a later challenge. -/
  late : ∀ (k : ℕ) p,
    p.challenge = 0 ∨ p.challenge ∈ (new rand).issued (probes.take k) →
    (∀ c, ((new rand).run probes).challenge p.pathID = some c →
      c ∉ (new rand).issued (probes.take k)) →
    ¬ ((new rand).run probes).Adopts p
  /-- The sequences accepted between two adoptions increase. -/
  increasing : ∀ (i j : ℕ) p p', i < j →
    probes[i]? = some p → probes[j]? = some p' → p'.pathID = p.pathID →
    ((new rand).run (probes.take i)).Accepts p →
    ((new rand).run (probes.take j)).Accepts p' →
    (∀ k, i < k → k ≤ j →
      ((new rand).run (probes.take (k + 1))).session p.pathID =
        ((new rand).run (probes.take k)).session p.pathID) →
    p.probeSeq < p'.probeSeq

variable {k : ℕ}

theorem run_take_succ (r : Reflector) (h : probes[k]? = some p) :
    r.run (probes.take (k + 1)) =
      ((r.run (probes.take k)).acceptProbe p).1 :=
  foldl_take_succ h

theorem run_take_induction {P : Reflector → Prop} {i j : ℕ} (hij : i ≤ j)
    (hi : P (r.run (probes.take i)))
    (hstep : ∀ k p, i ≤ k → k < j → probes[k]? = some p →
      P (r.run (probes.take k)) →
      P ((r.run (probes.take k)).acceptProbe p).1) :
    P (r.run (probes.take j)) :=
  foldl_take_induction hij hi hstep

theorem drawn_take (hdrawn : r.Drawn probes) (k : ℕ) :
    r.Drawn (probes.take k) :=
  Drawn.left (by rwa [List.take_append_drop])

theorem drawn_getElem? (hdrawn : r.Drawn probes) (h : probes[k]? = some p) :
    ((r.run (probes.take k)).acceptProbe p).2 ≠ .error .drawChallenge := by
  refine drawn_take hdrawn (k + 1) _ ?_
  rw [List.take_add_one, h, replies_append]
  exact List.mem_append_right _ List.mem_cons_self

theorem fresh_take (hdistinct : (words rand).Nodup)
    (hdrawn : (new rand).Drawn probes) (k : ℕ) :
    Fresh ((new rand).issued (probes.take k))
      ((new rand).run (probes.take k)) :=
  fresh_run [] (fresh_new hdistinct) (drawn_take hdrawn k)

theorem not_adopts_again (hdistinct : (words rand).Nodup)
    (hdrawn : (new rand).Drawn probes) {i j : ℕ} (hij : i < j)
    (hi : probes[i]? = some p)
    (hadopts : ((new rand).run (probes.take i)).Adopts p) :
    ¬ ((new rand).run (probes.take j)).Adopts p := by
  refine Spent.not_adopts (run_take_induction hij ?_ ?_)
  · rw [run_take_succ _ hi]
    exact hadopts.spent (fresh_take hdistinct hdrawn i)
      (drawn_getElem? hdrawn hi)
  · intro k p' _ _ _ hspent
    exact hspent.run [p']

theorem notMem_words_of_issued (hdistinct : (words rand).Nodup)
    (hdrawn : (new rand).Drawn probes)
    (hc : c ∈ (new rand).issued (probes.take k)) :
    c ≠ 0 ∧ c ∉ words ((new rand).run probes).rand := by
  have h := (fresh_take hdistinct hdrawn k).unissued c hc
  refine ⟨h.1, ?_⟩
  rw [← List.take_append_drop k probes, run_append]
  refine @run_induction _ (fun r => c ∉ words r.rand) (fun r p hr => ?_) h.2 _
  obtain ⟨r', reply, heq, hstep⟩ := r.acceptProbe_handled p
  rw [heq]
  exact hstep.notMem_words hr

/-- If its random source never fails and draws pairwise distinct values, a
reflector changes the adopted session of a path only on the live challenge,
adopts each frame at most once and none that was created before the challenge
was issued, and accepts increasing sequences within a session. -/
theorem adoption_challenge_gated
    (rand : List (Option UInt64)) (probes : List Probe)
    (hdistinct : (words rand).Nodup) (hdrawn : (new rand).Drawn probes) :
    Gated rand probes where
  live := by
    intro k p hp q hchange
    rw [run_take_succ _ hp] at hchange
    rw [lastIssued_eq (drawn_take hdrawn k)]
    rcases session_acceptProbe_eq_or _ p q with hsame | ⟨rfl, hlive⟩
    · exact absurd hsame hchange
    · exact ⟨rfl, hlive⟩
  once := by
    intro i j p hi hj hadopts hadopts'
    rcases Nat.lt_trichotomy i j with hij | hij | hij
    · exact absurd hadopts' (not_adopts_again hdistinct hdrawn hij hi hadopts)
    · exact hij
    · exact absurd hadopts (not_adopts_again hdistinct hdrawn hij hj hadopts')
  late := by
    intro k p hcarried hlater hadopts
    have hfresh : Fresh _ ((new rand).run probes) :=
      fresh_run [] (fresh_new hdistinct) hdrawn
    rcases hadopts.carriesLive with hlive | ⟨-, hdraw⟩
    · rcases hcarried with hzero | hissued
      · obtain ⟨st, hst, hch⟩ := Option.map_eq_some_iff.mp hlive
        have hne := (hfresh.unissued _ (hfresh.live _ _ hst)).1
        exact hne (hch.trans hzero)
      · exact hlater _ hlive hissued
    have hdrawn := drawChallenge_some (Prod.ext rfl hdraw)
    rcases hcarried with hzero | hissued
    · exact hdrawn.1 hzero
    · exact (notMem_words_of_issued hdistinct ‹_› hissued).2
        (hdrawn.2.subset List.mem_cons_self)
  increasing := by
    intro i j p p' hij hi hj hpath haccepts haccepts' hsame
    have hpassed : Passed p.pathID p.probeSeq
        ((new rand).run (probes.take j)) := by
      refine run_take_induction hij ?_ ?_
      · obtain ⟨a, hreply, ha⟩ := haccepts
        obtain ⟨r', reply, heq, hstep⟩ :=
          ((new rand).run (probes.take i)).acceptProbe_handled p
        rw [heq] at hreply
        subst hreply
        rw [run_take_succ _ hi, heq]
        exact hstep.passed_of_accepted ha
      intro k p'' hik hkj hk hpassed
      have hk' := hsame k hik hkj.le
      rw [run_take_succ _ hk] at hk'
      obtain ⟨r', reply, heq, hstep⟩ :=
        ((new rand).run (probes.take k)).acceptProbe_handled p''
      rw [heq] at hk' ⊢
      exact hstep.passed hk' hpassed
    have hlast := hsame j hij le_rfl
    rw [run_take_succ _ hj] at hlast
    rw [← hpath] at hpassed hlast
    exact hpassed.lt haccepts' (not_not.mpr hlast)

/-- A peer of session 1 is adopted with the challenge 7; its frame is replayed;
the peer restarts as session 2 and is adopted with the challenge 9. -/
def restartProbes : List Probe :=
  [⟨0, 0, 0, false, 1, 0, false, 0, []⟩, ⟨0, 1, 0, false, 1, 7, false, 0, []⟩,
    ⟨0, 1, 0, false, 1, 7, false, 0, []⟩, ⟨0, 0, 0, false, 2, 9, false, 0, []⟩,
    ⟨0, 1, 0, false, 1, 7, false, 0, []⟩]

theorem adoption_challenge_gated_restart :
    ((new [some 7, some 9, some 11]).run restartProbes).session 0 = some 2 ∧
      Gated [some 7, some 9, some 11] restartProbes :=
  ⟨by decide, adoption_challenge_gated [some 7, some 9, some 11] restartProbes
    (by decide) (by unfold Drawn; decide)⟩

end Reflector

end Wanbond.Telemetry
